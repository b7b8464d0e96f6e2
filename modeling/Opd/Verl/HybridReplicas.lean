import Mathlib.Data.List.Dedup
import Opd.Verl.BalancerAccounting

/-!
# The hybrid replicas of the fully asynchronous rollouter

`FullyAsyncLLMServerManager` starts with standalone replicas in its lists and in the load
balancer, and registers hybrid replicas that sleep. `add_replicas` and `remove_replicas`
filter the ids, tell the load balancer, and then update six collections.

* `Consistent`: the collections and the balancer describe the same replicas.
* `Booked`: what a call has to leave and return, but for the number of active servers.
* `booked_iff`: a call is booked exactly when no id that passes its filter is repeated.
* `bookkeeping_iff`: the books of all calls, and the count of active servers.
-/

namespace Opd.Verl.HybridReplicas

open Lib LoadBalancer

variable {R H : Type}

/-! ## The manager -/

/-- A `RolloutReplica`: `replica_rank` tells the objects apart. -/
structure Replica (H : Type) where
  rank : ℕ
  serverAddress : String
  serverHandle : H

/-- What `_initialize_llm_servers` creates: replicas with ranks and servers of their own. -/
structure Deployment (H : Type) where
  standalone : List (Replica H)
  hybridReplicas : Dict String (Replica H)
  ranks : ((standalone ++ hybridReplicas.items.map Prod.snd).map Replica.rank).Nodup
  addresses : ((standalone ++ hybridReplicas.items.map Prod.snd).map Replica.serverAddress).Nodup

structure Manager (C : Cache R String) (H : Type) where
  rolloutReplicas : List (Replica H)
  serverAddresses : List String
  serverHandles : List H
  aliveReplicas : Dict String (Replica H)
  aliveAddresses : Dict String String
  globalLoadBalancer : Balancer C H

variable {C : Cache R String}

/-- The filter of `add_replicas`: the servers to add, and the ids. -/
def filterAdd (d : Deployment H) (m : Manager C H) (resourceIds : List String) : Dict String H × List String :=
  resourceIds.foldl (fun acc rid =>
    if rid ∈ m.aliveReplicas.keys then acc
    else match d.hybridReplicas.get? rid with
      | none => acc
      | some replica => (acc.1.update replica.serverAddress fun _ => replica.serverHandle, acc.2 ++ [rid]))
    (.empty, [])

/-- The bookkeeping of `add_replicas` for one id. -/
def activate (d : Deployment H) (m : Manager C H) (rid : String) : Manager C H :=
  match d.hybridReplicas.get? rid with
  | none => m
  | some replica =>
    { m with
      serverHandles := if replica.serverAddress ∈ m.serverAddresses then m.serverHandles
        else m.serverHandles ++ [replica.serverHandle]
      serverAddresses := if replica.serverAddress ∈ m.serverAddresses then m.serverAddresses
        else m.serverAddresses ++ [replica.serverAddress]
      rolloutReplicas := if replica.rank ∈ m.rolloutReplicas.map Replica.rank then m.rolloutReplicas
        else m.rolloutReplicas ++ [replica]
      aliveReplicas := m.aliveReplicas.update rid fun _ => replica
      aliveAddresses := m.aliveAddresses.update rid fun _ => replica.serverAddress }

/-- `add_replicas`; `rpc` tells whether the call of the load balancer succeeds. -/
def addReplicas (d : Deployment H) (m : Manager C H) (resourceIds : List String) (rpc : Bool) : Manager C H × ℕ :=
  let servers := (filterAdd d m resourceIds).1
  let valid := (filterAdd d m resourceIds).2
  if servers.items = [] then (m, 0)
  else if rpc then
    (valid.foldl (activate d) { m with globalLoadBalancer := m.globalLoadBalancer.addServers servers }, valid.length)
  else (m, 0)

/-- The filter of `remove_replicas`: the servers to remove, and the ids. The ids of
`alive_replicas` and `alive_addresses` are the same, so the last branch is never taken. -/
def filterRemove (m : Manager C H) (resourceIds : List String) : List String × List String :=
  resourceIds.foldl (fun acc rid =>
    if rid ∉ m.aliveReplicas.keys then acc
    else match m.aliveAddresses.get? rid with
      | some address => (acc.1 ++ [address], acc.2 ++ [rid])
      | none => acc) ([], [])

def forget (m : Manager C H) (rid address : String) (replica : Replica H) : Manager C H :=
  { m with
    serverAddresses := if address ∈ m.serverAddresses then
        m.serverAddresses.eraseIdx (m.serverAddresses.idxOf address) else m.serverAddresses
    serverHandles := if address ∈ m.serverAddresses then
        m.serverHandles.eraseIdx (m.serverAddresses.idxOf address) else m.serverHandles
    rolloutReplicas := m.rolloutReplicas.eraseP fun r => r.rank = replica.rank
    aliveReplicas := m.aliveReplicas.clear [rid]
    aliveAddresses := m.aliveAddresses.clear [rid] }

/-- The bookkeeping of `remove_replicas` for one id: `none` for a `KeyError`. -/
def deactivate (m : Manager C H) (rid : String) : Option (Manager C H) :=
  match m.aliveAddresses.get? rid, m.aliveReplicas.get? rid with
  | some address, some replica => some (forget m rid address replica)
  | _, _ => none

def deactivateAll (m : Manager C H) : List String → Manager C H × Bool
  | [] => (m, true)
  | rid :: rids =>
    match deactivate m rid with
    | some m => deactivateAll m rids
    | none => (m, false)

/-- `remove_replicas` -/
def removeReplicas (m : Manager C H) (resourceIds : List String) (rpc : Bool) : Manager C H × ℕ :=
  let serverIds := (filterRemove m resourceIds).1
  let valid := (filterRemove m resourceIds).2
  if serverIds = [] then (m, 0)
  else if rpc then
    let out := deactivateAll { m with globalLoadBalancer := m.globalLoadBalancer.removeServers serverIds } valid
    (out.1, if out.2 then valid.length else 0)
  else (m, 0)

/-- `get_active_server_count` -/
def Manager.getActiveServerCount (m : Manager C H) : ℕ := m.rolloutReplicas.length + m.aliveReplicas.items.length

inductive Call
  | addReplicas (resourceIds : List String) (rpc : Bool)
  | removeReplicas (resourceIds : List String) (rpc : Bool)

def call (d : Deployment H) (m : Manager C H) : Call → Manager C H × ℕ
  | .addReplicas resourceIds rpc => addReplicas d m resourceIds rpc
  | .removeReplicas resourceIds rpc => removeReplicas m resourceIds rpc

/-! ## The property -/

/-- The collections describe the standalone replicas and the active hybrid ones, each once
and at the same positions. -/
structure Tracked (d : Deployment H) (m : Manager C H) : Prop where
  replicas : ∀ r, r ∈ m.rolloutReplicas ↔ r ∈ d.standalone ∨ ∃ rid, m.aliveReplicas.get? rid = some r
  nodup : m.rolloutReplicas.Nodup
  serverAddresses : m.serverAddresses = m.rolloutReplicas.map Replica.serverAddress
  nodupAddresses : m.serverAddresses.Nodup
  serverHandles : m.serverHandles = m.rolloutReplicas.map Replica.serverHandle
  aliveAddresses : m.aliveAddresses = m.aliveReplicas.map Replica.serverAddress
  registered : ∀ rid r, m.aliveReplicas.get? rid = some r → d.hybridReplicas.get? rid = some r

/-- **The books of the manager**: the load balancer knows the same servers. -/
structure Consistent (d : Deployment H) (m : Manager C H) : Prop extends Tracked d m where
  balancer : ∀ address handle, m.globalLoadBalancer.servers.get? address = some handle ↔
    ∃ r ∈ m.rolloutReplicas, r.serverAddress = address ∧ r.serverHandle = handle
  pool : ∀ address, address ∈ m.globalLoadBalancer.getAllServers ↔ address ∈ m.serverAddresses

/-- The hybrid replicas that are active in one of the states only. -/
def changed (d : Deployment H) (m m' : Manager C H) : ℕ :=
  d.hybridReplicas.keys.countP fun rid => (m.aliveReplicas.get? rid).isSome ≠ (m'.aliveReplicas.get? rid).isSome

def Call.rpc : Call → Bool
  | .addReplicas _ rpc | .removeReplicas _ rpc => rpc

/-- **A call that is booked**: consistent books, the number of replicas whose state changed,
and no effect of a failed RPC. -/
structure Booked (d : Deployment H) (m : Manager C H) (c : Call) : Prop where
  consistent : Consistent d (call d m c).1
  returned : (call d m c).2 = changed d m (call d m c).1
  failed : c.rpc = false → (call d m c).1 = m

def validIds (d : Deployment H) (m : Manager C H) : Call → List String
  | .addReplicas resourceIds _ =>
    resourceIds.filter fun rid => rid ∉ m.aliveReplicas.keys ∧ rid ∈ d.hybridReplicas.keys
  | .removeReplicas resourceIds _ => resourceIds.filter fun rid => rid ∈ m.aliveReplicas.keys

/-- No id that passes the filter is repeated, if the RPC succeeds. -/
def Unrepeated (d : Deployment H) (m : Manager C H) (c : Call) : Prop := c.rpc = true → (validIds d m c).Nodup

/-- The call activates replicas: an id is registered, and the RPC succeeds. -/
def Activates (d : Deployment H) : Call → Prop
  | .addReplicas resourceIds rpc => rpc = true ∧ ∃ rid ∈ resourceIds, rid ∈ d.hybridReplicas.keys
  | .removeReplicas _ _ => False

def Along (d : Deployment H) (P : Manager C H → Call → Prop) : Manager C H → List Call → Prop
  | _, [] => True
  | m, c :: calls => P m c ∧ Along d P (call d m c).1 calls

def Deployment.servers (d : Deployment H) : Dict String H :=
  ⟨d.standalone.map fun r => (r.serverAddress, r.serverHandle), by
    have haddresses := d.addresses
    rw [List.map_append, List.nodup_append] at haddresses
    rw [List.map_map]
    exact haddresses.1⟩

/-- The manager after `_initialize_llm_servers` and `_init_global_load_balancer`. -/
structure Created (d : Deployment H) (m : Manager C H) : Prop where
  rolloutReplicas : m.rolloutReplicas = d.standalone
  serverAddresses : m.serverAddresses = d.standalone.map Replica.serverAddress
  serverHandles : m.serverHandles = d.standalone.map Replica.serverHandle
  aliveReplicas : m.aliveReplicas = .empty
  aliveAddresses : m.aliveAddresses = .empty
  balancer : Balancer.new? C d.servers = some m.globalLoadBalancer

/-! ## The replicas of a deployment -/

namespace Deployment

variable {d : Deployment H}

def replicas (d : Deployment H) : List (Replica H) := d.standalone ++ d.hybridReplicas.items.map Prod.snd

theorem mem_hybrid {rid : String} {r : Replica H} (h : d.hybridReplicas.get? rid = some r) :
    r ∈ d.hybridReplicas.items.map Prod.snd := List.mem_map.2 ⟨(rid, r), Dict.mem_items.2 h, rfl⟩

theorem mem_replicas {rid : String} {r : Replica H} (h : d.hybridReplicas.get? rid = some r) : r ∈ d.replicas :=
  List.mem_append_right _ (mem_hybrid h)

theorem eq_of_rank {r r' : Replica H} (h : r ∈ d.replicas) (h' : r' ∈ d.replicas) (hrank : r.rank = r'.rank) :
    r = r' := List.inj_on_of_nodup_map d.ranks h h' hrank

theorem eq_of_address {r r' : Replica H} (h : r ∈ d.replicas) (h' : r' ∈ d.replicas)
    (haddress : r.serverAddress = r'.serverAddress) : r = r' := List.inj_on_of_nodup_map d.addresses h h' haddress

theorem not_standalone {rid : String} {r : Replica H} (h : d.hybridReplicas.get? rid = some r) :
    r ∉ d.standalone := by
  intro hmem
  have hnodup := d.ranks.of_map
  rw [List.nodup_append] at hnodup
  exact hnodup.2.2 r hmem r (mem_hybrid h) rfl

theorem id_unique {rid rid' : String} {r : Replica H} (h : d.hybridReplicas.get? rid = some r)
    (h' : d.hybridReplicas.get? rid' = some r) : rid = rid' := by
  have hnodup := d.ranks.of_map
  rw [List.nodup_append] at hnodup
  have heq := List.inj_on_of_nodup_map hnodup.2.1 (Dict.mem_items.2 h) (Dict.mem_items.2 h') rfl
  exact congrArg Prod.fst heq

end Deployment

/-! ## The filters -/

section Filters

variable {d : Deployment H} {m : Manager C H} {resourceIds : List String}

theorem filterAdd_concat (rid : String) : filterAdd d m (resourceIds ++ [rid]) =
    if rid ∈ m.aliveReplicas.keys then filterAdd d m resourceIds
    else match d.hybridReplicas.get? rid with
      | none => filterAdd d m resourceIds
      | some replica => ((filterAdd d m resourceIds).1.update replica.serverAddress fun _ => replica.serverHandle,
          (filterAdd d m resourceIds).2 ++ [rid]) := by
  unfold filterAdd
  rw [List.foldl_append]
  rfl

theorem filterAdd_snd : (filterAdd d m resourceIds).2 =
    resourceIds.filter fun rid => rid ∉ m.aliveReplicas.keys ∧ rid ∈ d.hybridReplicas.keys := by
  induction resourceIds using List.reverseRecOn with
  | nil => rfl
  | append_singleton ids rid ih =>
    rw [filterAdd_concat, List.filter_append]
    by_cases halive : rid ∈ m.aliveReplicas.keys
    · rw [if_pos halive, ih]
      simp [halive]
    · rw [if_neg halive]
      cases hget : d.hybridReplicas.get? rid with
      | none =>
        have hnot : rid ∉ d.hybridReplicas.keys := Dict.get?_eq_none.1 hget
        simp only [ih]
        simp [hnot]
      | some replica =>
        have hmem : rid ∈ d.hybridReplicas.keys := by rw [Dict.mem_keys_iff, hget]; rfl
        simp only [ih]
        simp [halive, hmem]

/-- **The servers of the filter** are those of the ids that pass it. -/
theorem filterAdd_fst {address : String} {handle : H} : (filterAdd d m resourceIds).1.get? address = some handle ↔
    ∃ rid ∈ (filterAdd d m resourceIds).2, ∃ r, d.hybridReplicas.get? rid = some r ∧
      r.serverAddress = address ∧ r.serverHandle = handle := by
  induction resourceIds using List.reverseRecOn with
  | nil =>
    constructor
    · intro h
      cases h
    · rintro ⟨rid, hmem, -⟩
      cases hmem
  | append_singleton ids rid ih =>
    rw [filterAdd_concat]
    split
    · exact ih
    split
    · exact ih
    · rename_i replica hreplica
      simp only [Dict.get?_update]
      constructor
      · intro h
        by_cases haddress : address = replica.serverAddress
        · rw [if_pos haddress] at h
          exact ⟨rid, List.mem_append_right _ List.mem_cons_self, replica, hreplica, haddress.symm, Option.some.inj h⟩
        · rw [if_neg haddress] at h
          obtain ⟨rid', hmem, r, hr⟩ := ih.1 h
          exact ⟨rid', List.mem_append_left _ hmem, r, hr⟩
      · rintro ⟨rid', hmem, r, hr, haddress, hhandle⟩
        by_cases hsame : address = replica.serverAddress
        · obtain rfl := Deployment.eq_of_address (Deployment.mem_replicas hr) (Deployment.mem_replicas hreplica)
            (haddress.trans hsame)
          rw [if_pos hsame, hhandle]
        · rw [if_neg hsame]
          rcases List.mem_append.1 hmem with hold | hnew
          · exact ih.2 ⟨rid', hold, r, hr, haddress, hhandle⟩
          · obtain rfl := List.mem_singleton.1 hnew
            rw [hreplica] at hr
            obtain rfl := Option.some.inj hr
            exact absurd haddress.symm hsame

theorem filterAdd_empty : (filterAdd d m resourceIds).1.items = [] ↔ (filterAdd d m resourceIds).2 = [] := by
  constructor
  · intro h
    refine List.eq_nil_iff_forall_not_mem.2 fun rid hmem => ?_
    have hvalid := hmem
    rw [filterAdd_snd, List.mem_filter] at hvalid
    obtain ⟨r, hr⟩ := Option.isSome_iff_exists.1 (Dict.mem_keys_iff.1 (by simpa using hvalid.2 : _ ∧ _).2)
    have hget := filterAdd_fst.2 ⟨rid, hmem, r, hr, rfl, rfl⟩
    rw [← Dict.mem_items, h] at hget
    cases hget
  · intro h
    refine List.eq_nil_iff_forall_not_mem.2 fun item hmem => ?_
    obtain ⟨rid, hrid, -⟩ := filterAdd_fst.1 (Dict.mem_items.1 hmem)
    rw [h] at hrid
    cases hrid

theorem filterRemove_concat (rid : String) : filterRemove m (resourceIds ++ [rid]) =
    if rid ∉ m.aliveReplicas.keys then filterRemove m resourceIds
    else match m.aliveAddresses.get? rid with
      | some address => ((filterRemove m resourceIds).1 ++ [address], (filterRemove m resourceIds).2 ++ [rid])
      | none => filterRemove m resourceIds := by
  unfold filterRemove
  rw [List.foldl_append]
  rfl

variable (haddresses : m.aliveAddresses = m.aliveReplicas.map Replica.serverAddress)
include haddresses

theorem get?_aliveAddresses (rid : String) :
    m.aliveAddresses.get? rid = (m.aliveReplicas.get? rid).map Replica.serverAddress := by
  rw [haddresses, Dict.get?_map]

theorem filterRemove_snd : (filterRemove m resourceIds).2 = resourceIds.filter fun rid => rid ∈ m.aliveReplicas.keys := by
  induction resourceIds using List.reverseRecOn with
  | nil => rfl
  | append_singleton ids rid ih =>
    rw [filterRemove_concat, List.filter_append]
    by_cases halive : rid ∈ m.aliveReplicas.keys
    · obtain ⟨r, hr⟩ := Option.isSome_iff_exists.1 (Dict.mem_keys_iff.1 halive)
      rw [if_neg (not_not.2 halive), get?_aliveAddresses haddresses, hr]
      simp only [Option.map_some, ih]
      simp [halive]
    · rw [if_pos halive, ih]
      simp [halive]

/-- **The server ids of the filter** are those of the ids that pass it. -/
theorem filterRemove_fst {address : String} : address ∈ (filterRemove m resourceIds).1 ↔
    ∃ rid ∈ (filterRemove m resourceIds).2, ∃ r, m.aliveReplicas.get? rid = some r ∧ r.serverAddress = address := by
  induction resourceIds using List.reverseRecOn with
  | nil => simp [filterRemove]
  | append_singleton ids rid ih =>
    rw [filterRemove_concat]
    split
    · exact ih
    rename_i halive
    obtain ⟨r, hr⟩ := Option.isSome_iff_exists.1 (Dict.mem_keys_iff.1 (not_not.1 halive))
    rw [get?_aliveAddresses haddresses, hr]
    simp only [Option.map_some, List.mem_append, List.mem_singleton, ih]
    constructor
    · rintro (⟨rid', hmem, r', hr'⟩ | rfl)
      · exact ⟨rid', Or.inl hmem, r', hr'⟩
      · exact ⟨rid, Or.inr rfl, r, hr, rfl⟩
    · rintro ⟨rid', hmem | rfl, r', hr', rfl⟩
      · exact Or.inl ⟨rid', hmem, r', hr', rfl⟩
      · rw [hr] at hr'
        obtain rfl := Option.some.inj hr'
        exact Or.inr rfl

theorem filterRemove_empty : (filterRemove m resourceIds).1 = [] ↔ (filterRemove m resourceIds).2 = [] := by
  constructor
  · intro h
    refine List.eq_nil_iff_forall_not_mem.2 fun rid hmem => ?_
    have hvalid := hmem
    rw [filterRemove_snd haddresses, List.mem_filter] at hvalid
    obtain ⟨r, hr⟩ := Option.isSome_iff_exists.1 (Dict.mem_keys_iff.1 (by simpa using hvalid.2))
    have haddress := (filterRemove_fst haddresses).2 ⟨rid, hmem, r, hr, rfl⟩
    rw [h] at haddress
    cases haddress
  · intro h
    refine List.eq_nil_iff_forall_not_mem.2 fun address hmem => ?_
    obtain ⟨rid, hrid, -⟩ := (filterRemove_fst haddresses).1 hmem
    rw [h] at hrid
    cases hrid

end Filters

/-! ## The bookkeeping -/

section Bookkeeping

variable {d : Deployment H} {m : Manager C H} {rid : String} {r : Replica H}

theorem Tracked.mem_replicas (h : Tracked d m) (hr : r ∈ m.rolloutReplicas) : r ∈ d.replicas := by
  rcases (h.replicas r).1 hr with hstandalone | ⟨rid, halive⟩
  · exact List.mem_append_left _ hstandalone
  · exact Deployment.mem_replicas (h.registered rid r halive)

theorem Tracked.fresh (h : Tracked d m) (hnot : m.aliveReplicas.get? rid = none)
    (hr : d.hybridReplicas.get? rid = some r) : r ∉ m.rolloutReplicas := by
  intro hmem
  rcases (h.replicas r).1 hmem with hstandalone | ⟨rid', halive⟩
  · exact Deployment.not_standalone hr hstandalone
  · obtain rfl := Deployment.id_unique hr (h.registered rid' r halive)
    rw [hnot] at halive
    cases halive

/-- **The bookkeeping of one activation** appends the replica. -/
theorem Tracked.activate (h : Tracked d m) (hnot : m.aliveReplicas.get? rid = none)
    (hr : d.hybridReplicas.get? rid = some r) : Tracked d (activate d m rid) ∧
      (activate d m rid).aliveReplicas = m.aliveReplicas.update rid fun _ => r := by
  have hfresh := h.fresh hnot hr
  have hall := Deployment.mem_replicas hr
  have hrank : r.rank ∉ m.rolloutReplicas.map Replica.rank := by
    intro hmem
    obtain ⟨r', hr', hsame⟩ := List.mem_map.1 hmem
    exact hfresh (Deployment.eq_of_rank (h.mem_replicas hr') hall hsame ▸ hr')
  have haddress : r.serverAddress ∉ m.serverAddresses := by
    rw [h.serverAddresses]
    intro hmem
    obtain ⟨r', hr', hsame⟩ := List.mem_map.1 hmem
    exact hfresh (Deployment.eq_of_address (h.mem_replicas hr') hall hsame ▸ hr')
  have hkey : rid ∉ m.aliveReplicas.keys := Dict.get?_eq_none.1 hnot
  simp only [HybridReplicas.activate, hr, haddress, hrank, if_false]
  refine ⟨⟨?_, ?_, ?_, ?_, ?_, ?_, ?_⟩, trivial⟩
  · intro r'
    simp only [List.mem_append, List.mem_singleton, h.replicas r', Dict.get?_update]
    constructor
    · rintro ((hstandalone | ⟨rid', halive⟩) | rfl)
      · exact Or.inl hstandalone
      · refine Or.inr ⟨rid', ?_⟩
        rw [if_neg]
        · exact halive
        · rintro rfl
          rw [hnot] at halive
          cases halive
      · exact Or.inr ⟨rid, if_pos rfl⟩
    · rintro (hstandalone | ⟨rid', halive⟩)
      · exact Or.inl (Or.inl hstandalone)
      · split at halive
        · exact Or.inr (Option.some.inj halive).symm
        · exact Or.inl (Or.inr ⟨rid', halive⟩)
  · exact List.nodup_append.2 ⟨h.nodup, List.nodup_singleton r, fun a ha b hb => by
      rintro rfl
      exact hfresh (List.mem_singleton.1 hb ▸ ha)⟩
  · rw [h.serverAddresses, List.map_append]
    rfl
  · exact List.nodup_append.2 ⟨h.nodupAddresses, List.nodup_singleton _, fun a ha b hb => by
      rintro rfl
      exact haddress (List.mem_singleton.1 hb ▸ ha)⟩
  · rw [h.serverHandles, List.map_append]
    rfl
  · rw [h.aliveAddresses]
    exact Dict.map_update_of_not_mem _ _ hkey
  · intro rid' r' halive
    rw [Dict.get?_update] at halive
    split at halive
    · rename_i hid
      rw [hid, hr, halive]
    · exact h.registered rid' r' halive

/-- **The bookkeeping of `add_replicas`**, for sleeping replicas without repetition. -/
theorem Tracked.activateAll (h : Tracked d m) {valid : List String} (hnodup : valid.Nodup)
    (hvalid : ∀ rid ∈ valid, m.aliveReplicas.get? rid = none ∧ rid ∈ d.hybridReplicas.keys) :
    Tracked d (valid.foldl (HybridReplicas.activate d) m) ∧
      ∀ rid, (valid.foldl (HybridReplicas.activate d) m).aliveReplicas.get? rid =
        if rid ∈ valid then d.hybridReplicas.get? rid else m.aliveReplicas.get? rid := by
  induction valid generalizing m with
  | nil => exact ⟨h, fun _ => rfl⟩
  | cons rid valid ih =>
    rw [List.nodup_cons] at hnodup
    obtain ⟨hnot, hmem⟩ := hvalid rid List.mem_cons_self
    obtain ⟨r, hr⟩ := Option.isSome_iff_exists.1 (Dict.mem_keys_iff.1 hmem)
    obtain ⟨htracked, halive⟩ := h.activate hnot hr
    have hne : ∀ rid' ∈ valid, rid' ≠ rid := fun rid' hrid' heq => hnodup.1 (heq ▸ hrid')
    obtain ⟨hall, hget⟩ := ih htracked hnodup.2 fun rid' hrid' => by
      rw [halive, Dict.get?_update_of_ne _ _ (hne rid' hrid')]
      exact hvalid rid' (List.mem_cons_of_mem _ hrid')
    refine ⟨hall, fun rid' => ?_⟩
    rw [List.foldl_cons, hget, halive, Dict.get?_update]
    by_cases hid : rid' = rid
    · rw [if_neg (hid ▸ hnodup.1), if_pos hid, if_pos (hid ▸ List.mem_cons_self), hid, hr]
    · rw [if_neg hid]
      exact if_congr (by simp [hid]) rfl rfl

theorem Tracked.split (h : Tracked d m) (hr : r ∈ m.rolloutReplicas) : ∃ front back,
    m.rolloutReplicas = front ++ r :: back ∧ m.rolloutReplicas.eraseP (fun r' => r'.rank = r.rank) = front ++ back ∧
      m.serverAddresses.idxOf r.serverAddress = front.length := by
  obtain ⟨front, back, hsplit⟩ := List.append_of_mem hr
  have hnodup := h.nodup
  rw [hsplit, List.nodup_append] at hnodup
  have hne : ∀ r' ∈ front, r' ≠ r := by
    rintro r' hr' rfl
    exact hnodup.2.2 r' hr' r' List.mem_cons_self rfl
  have hall : ∀ r' ∈ front, r' ∈ d.replicas := by
    intro r' hr'
    exact h.mem_replicas (hsplit ▸ List.mem_append_left _ hr')
  refine ⟨front, back, hsplit, ?_, ?_⟩
  · rw [hsplit, List.eraseP_append_right, List.eraseP_cons_of_pos (by simp)]
    intro r' hr' hrank
    exact hne r' hr' (Deployment.eq_of_rank (hall r' hr') (h.mem_replicas hr) (by simpa using hrank))
  · rw [h.serverAddresses, hsplit, List.map_append, List.idxOf_append_of_notMem, List.map_cons, List.idxOf_cons_self,
      List.length_map, Nat.add_zero]
    intro hmem
    obtain ⟨r', hr', hsame⟩ := List.mem_map.1 hmem
    exact hne r' hr' (Deployment.eq_of_address (hall r' hr') (h.mem_replicas hr) hsame)

/-- **The bookkeeping of one deactivation** takes the replica out of every list. -/
theorem Tracked.deactivate (h : Tracked d m) (hr : m.aliveReplicas.get? rid = some r) :
    ∃ m', deactivate m rid = some m' ∧ Tracked d m' ∧ m'.aliveReplicas = m.aliveReplicas.clear [rid] ∧
      m'.globalLoadBalancer = m.globalLoadBalancer := by
  have hmem : r ∈ m.rolloutReplicas := (h.replicas r).2 (Or.inr ⟨rid, hr⟩)
  obtain ⟨front, back, hsplit, herase, hidx⟩ := h.split hmem
  have haddress : r.serverAddress ∈ m.serverAddresses := by
    rw [h.serverAddresses]
    exact List.mem_map_of_mem hmem
  have hnodup := h.nodup
  rw [hsplit, List.nodup_middle, List.nodup_cons] at hnodup
  have haddresses : m.serverAddresses.eraseIdx front.length = (front ++ back).map Replica.serverAddress := by
    rw [h.serverAddresses, hsplit, List.map_append, List.map_append, List.map_cons,
      ← @List.length_map _ _ front Replica.serverAddress, List.eraseIdx_append_of_length_le (Nat.le_refl _)]
    simp
  have hhandles : m.serverHandles.eraseIdx front.length = (front ++ back).map Replica.serverHandle := by
    rw [h.serverHandles, hsplit, List.map_append, List.map_append, List.map_cons,
      ← @List.length_map _ _ front Replica.serverHandle, List.eraseIdx_append_of_length_le (Nat.le_refl _)]
    simp
  refine ⟨forget m rid r.serverAddress r, ?_, ⟨?_, ?_, ?_, ?_, ?_, ?_, ?_⟩, rfl, rfl⟩
  · unfold HybridReplicas.deactivate
    rw [get?_aliveAddresses h.aliveAddresses, hr]
    rfl
  · intro r'
    simp only [forget, herase, Dict.get?_clear, List.mem_singleton]
    have hold := h.replicas r'
    rw [hsplit] at hold
    constructor
    · intro hr'
      have hne : r' ≠ r := fun heq => hnodup.1 (heq ▸ hr')
      rcases hold.1 (by simp only [List.mem_append, List.mem_cons] at hr' ⊢; tauto) with hstandalone | ⟨rid', halive⟩
      · exact Or.inl hstandalone
      · refine Or.inr ⟨rid', ?_⟩
        rw [if_neg]
        · exact halive
        · rintro rfl
          rw [hr] at halive
          exact hne (Option.some.inj halive).symm
    · intro hr'
      have hne : r' ≠ r := by
        rintro rfl
        rcases hr' with hstandalone | ⟨rid', halive⟩
        · exact Deployment.not_standalone (h.registered rid r' hr) hstandalone
        · split at halive
          · cases halive
          · rename_i hid
            exact hid (Deployment.id_unique (h.registered rid' r' halive) (h.registered rid r' hr))
      have hin : r' ∈ front ++ r :: back := by
        rcases hr' with hstandalone | ⟨rid', halive⟩
        · exact hold.2 (Or.inl hstandalone)
        · split at halive
          · cases halive
          · exact hold.2 (Or.inr ⟨rid', halive⟩)
      simp only [List.mem_append, List.mem_cons] at hin ⊢
      tauto
  · simp only [forget, herase]
    exact hnodup.2
  · simp only [forget, herase, haddress, if_true, hidx, haddresses]
  · simp only [forget, haddress, if_true, hidx]
    exact h.nodupAddresses.sublist (List.eraseIdx_sublist ..)
  · simp only [forget, herase, haddress, if_true, hidx, hhandles]
  · simp only [forget, h.aliveAddresses, Dict.map_clear]
  · intro rid' r' halive
    simp only [forget, Dict.get?_clear] at halive
    split at halive
    · cases halive
    · exact h.registered rid' r' halive

/-- **The bookkeeping of `remove_replicas`**, for active replicas without repetition. -/
theorem Tracked.deactivateAll (h : Tracked d m) {valid : List String} (hnodup : valid.Nodup)
    (hvalid : ∀ rid ∈ valid, (m.aliveReplicas.get? rid).isSome) :
    ∃ m', deactivateAll m valid = (m', true) ∧ Tracked d m' ∧ m'.aliveReplicas = m.aliveReplicas.clear valid ∧
      m'.globalLoadBalancer = m.globalLoadBalancer := by
  induction valid generalizing m with
  | nil =>
    refine ⟨m, rfl, h, ?_, rfl⟩
    refine Dict.ext_items ?_
    simp [Dict.clear]
  | cons rid valid ih =>
    rw [List.nodup_cons] at hnodup
    obtain ⟨r, hr⟩ := Option.isSome_iff_exists.1 (hvalid rid List.mem_cons_self)
    obtain ⟨m₁, hdeactivate, htracked, halive, hbalancer⟩ := h.deactivate hr
    obtain ⟨m₂, hrest, htracked₂, halive₂, hbalancer₂⟩ := ih htracked hnodup.2 fun rid' hrid' => by
      have hne : rid' ∉ [rid] := fun heq => hnodup.1 (List.mem_singleton.1 heq ▸ hrid')
      rw [halive, Dict.get?_clear_of_not_mem _ hne]
      exact hvalid rid' (List.mem_cons_of_mem _ hrid')
    refine ⟨m₂, by rw [HybridReplicas.deactivateAll, hdeactivate]; exact hrest, htracked₂, ?_,
      hbalancer₂.trans hbalancer⟩
    rw [halive₂, halive]
    refine Dict.ext_items ?_
    simp only [Dict.clear, List.filter_filter, List.mem_cons]
    refine List.filter_congr fun item _ => ?_
    by_cases h1 : item.1 = rid <;> by_cases h2 : item.1 ∈ valid <;> simp [h1, h2]

end Bookkeeping

/-! ## The calls -/

section Calls

variable {d : Deployment H} {m m' : Manager C H} {resourceIds valid : List String}

/-- **`add_servers`**: the new handles, and the old ones of the other servers. -/
theorem servers_addServers (b : Balancer C H) (servers : Dict String H) (serverId : String) :
    (b.addServers servers).servers.get? serverId = (servers.get? serverId).or (b.servers.get? serverId) := by
  have key : ∀ (items : List (String × H)) (b : Balancer C H), (items.map Prod.fst).Nodup →
      (items.foldl Balancer.addServer b).servers.get? serverId =
        ((items.find? fun item => item.1 = serverId).map Prod.snd).or (b.servers.get? serverId) := by
    intro items
    induction items with
    | nil => exact fun _ _ => rfl
    | cons item items ih =>
      intro b hnodup
      rw [List.map_cons, List.nodup_cons] at hnodup
      rw [List.foldl_cons, ih _ hnodup.2, List.find?_cons]
      simp only [Balancer.addServer, Dict.get?_update]
      by_cases hid : serverId = item.1
      · -- the key of the first item does not come again
        have hnone : items.find? (fun item => item.1 = serverId) = none := by
          refine List.find?_eq_none.2 fun other hother hsame => hnodup.1 ?_
          rw [← hid, ← of_decide_eq_true hsame]
          exact List.mem_map_of_mem hother
        simp [hnone, hid.symm]
      · simp [hid, Ne.symm hid]
  exact key servers.items b servers.nodup

theorem mem_getAllServers_addServers {b : Balancer C H} {servers : Dict String H} {serverId : String} :
    serverId ∈ (b.addServers servers).getAllServers ↔ serverId ∈ servers.keys ∨ serverId ∈ b.getAllServers := by
  unfold Balancer.getAllServers
  rw [Dict.mem_keys_iff, Balancer.inflightRequests_addServers, Dict.mem_keys_iff (d := b.inflightRequests)]
  split <;> simp [*]

theorem changed_eq (hnodup : valid.Nodup) (hsub : ∀ rid ∈ valid, rid ∈ d.hybridReplicas.keys)
    (hiff : ∀ rid ∈ d.hybridReplicas.keys,
      ((m.aliveReplicas.get? rid).isSome ≠ (m'.aliveReplicas.get? rid).isSome ↔ rid ∈ valid)) :
    changed d m m' = valid.length := by
  unfold changed
  rw [List.countP_eq_length_filter]
  refine List.Perm.length_eq ((List.perm_ext_iff_of_nodup (d.hybridReplicas.nodup.filter _) hnodup).2 fun rid => ?_)
  rw [List.mem_filter, decide_eq_true_iff]
  constructor
  · rintro ⟨hmem, hdiff⟩
    exact (hiff rid hmem).1 hdiff
  · intro hmem
    exact ⟨hsub rid hmem, (hiff rid (hsub rid hmem)).2 hmem⟩

theorem changed_self : changed d m m = 0 := by simp [changed]

theorem changed_lt (hrepeated : ¬ valid.Nodup)
    (hsub : ∀ rid, (m.aliveReplicas.get? rid).isSome ≠ (m'.aliveReplicas.get? rid).isSome → rid ∈ valid) :
    changed d m m' < valid.length := by
  unfold changed
  rw [List.countP_eq_length_filter]
  have hle : (d.hybridReplicas.keys.filter fun rid =>
      (m.aliveReplicas.get? rid).isSome ≠ (m'.aliveReplicas.get? rid).isSome).length ≤ valid.dedup.length := by
    refine (List.subperm_of_subset (d.hybridReplicas.nodup.filter _) fun rid hrid => ?_).length_le
    rw [List.mem_filter, decide_eq_true_iff] at hrid
    exact List.mem_dedup.2 (hsub rid hrid.2)
  have hlt : valid.dedup.length < valid.length := by
    refine lt_of_le_of_ne (List.dedup_sublist valid).length_le fun heq => hrepeated ?_
    exact List.dedup_eq_self.1 ((List.dedup_sublist valid).eq_of_length heq)
  omega

theorem sleeping_of_valid {rid : String} (h : rid ∈ (filterAdd d m resourceIds).2) :
    m.aliveReplicas.get? rid = none ∧ rid ∈ d.hybridReplicas.keys := by
  rw [filterAdd_snd, List.mem_filter] at h
  have hboth : rid ∉ m.aliveReplicas.keys ∧ rid ∈ d.hybridReplicas.keys := by simpa using h.2
  exact ⟨Dict.get?_eq_none.2 hboth.1, hboth.2⟩

theorem globalLoadBalancer_activateAll (valid : List String) (m : Manager C H) :
    (valid.foldl (activate d) m).globalLoadBalancer = m.globalLoadBalancer := by
  induction valid generalizing m with
  | nil => rfl
  | cons rid valid ih =>
    rw [List.foldl_cons, ih]
    unfold activate
    split <;> rfl

theorem Tracked.withBalancer (h : Tracked d m) (b : Balancer C H) :
    Tracked d { m with globalLoadBalancer := b } :=
  ⟨h.replicas, h.nodup, h.serverAddresses, h.nodupAddresses, h.serverHandles, h.aliveAddresses, h.registered⟩

/-- **A successful `add_replicas`** of ids without repetition. -/
theorem Consistent.addReplicas (h : Consistent d m) (hne : (filterAdd d m resourceIds).2 ≠ [])
    (hnodup : (filterAdd d m resourceIds).2.Nodup) :
    Consistent d (addReplicas d m resourceIds true).1 ∧
      (addReplicas d m resourceIds true).2 = changed d m (addReplicas d m resourceIds true).1 := by
  have hitems : ¬ (filterAdd d m resourceIds).1.items = [] := fun hnil => hne (filterAdd_empty.1 hnil)
  have hsleeping : ∀ rid ∈ (filterAdd d m resourceIds).2, m.aliveReplicas.get? rid = none ∧
      rid ∈ d.hybridReplicas.keys := fun rid hrid => sleeping_of_valid hrid
  have hout := (h.toTracked.withBalancer (m.globalLoadBalancer.addServers (filterAdd d m resourceIds).1)).activateAll
    hnodup hsleeping
  have hbalancer := globalLoadBalancer_activateAll (d := d) (filterAdd d m resourceIds).2
    { m with globalLoadBalancer := m.globalLoadBalancer.addServers (filterAdd d m resourceIds).1 }
  simp only [HybridReplicas.addReplicas, hitems, if_false, if_true]
  generalize (filterAdd d m resourceIds).2.foldl (activate d) _ = m' at hout hbalancer ⊢
  obtain ⟨htracked, halive⟩ := hout
  have hmem : ∀ r, r ∈ m'.rolloutReplicas ↔
      r ∈ m.rolloutReplicas ∨ ∃ rid ∈ (filterAdd d m resourceIds).2, d.hybridReplicas.get? rid = some r := by
    intro r
    rw [htracked.replicas, h.replicas]
    simp only [halive]
    constructor
    · rintro (hstandalone | ⟨rid, hrid⟩)
      · exact Or.inl (Or.inl hstandalone)
      · split at hrid
        · rename_i hvalid
          exact Or.inr ⟨rid, hvalid, hrid⟩
        · exact Or.inl (Or.inr ⟨rid, hrid⟩)
    · rintro ((hstandalone | ⟨rid, hrid⟩) | ⟨rid, hvalid, hrid⟩)
      · exact Or.inl hstandalone
      · refine Or.inr ⟨rid, ?_⟩
        rw [if_neg, hrid]
        intro hvalid
        rw [(hsleeping rid hvalid).1] at hrid
        cases hrid
      · exact Or.inr ⟨rid, by rw [if_pos hvalid, hrid]⟩
  refine ⟨⟨htracked, fun address handle => ?_, fun address => ?_⟩, ?_⟩
  · rw [hbalancer, servers_addServers]
    constructor
    · intro hget
      cases hnew : (filterAdd d m resourceIds).1.get? address with
      | some handle' =>
        rw [hnew, Option.some_or, Option.some.injEq] at hget
        obtain ⟨rid, hvalid, r, hr, haddress, hhandle⟩ := filterAdd_fst.1 hnew
        exact ⟨r, (hmem r).2 (Or.inr ⟨rid, hvalid, hr⟩), haddress, hhandle.trans hget⟩
      | none =>
        rw [hnew, Option.none_or] at hget
        obtain ⟨r, hr, hsame⟩ := (h.balancer address handle).1 hget
        exact ⟨r, (hmem r).2 (Or.inl hr), hsame⟩
    · rintro ⟨r, hr, haddress, hhandle⟩
      rcases (hmem r).1 hr with hold | ⟨rid, hvalid, hrid⟩
      · rw [(h.balancer address handle).2 ⟨r, hold, haddress, hhandle⟩]
        cases hnew : (filterAdd d m resourceIds).1.get? address with
        | some handle' =>
          -- the servers of different replicas are different
          obtain ⟨rid, -, r', hr', haddress', hhandle'⟩ := filterAdd_fst.1 hnew
          obtain rfl := Deployment.eq_of_address (h.mem_replicas hold) (Deployment.mem_replicas hr')
            (haddress.trans haddress'.symm)
          rw [Option.some_or, ← hhandle', hhandle]
        | none => rfl
      · rw [filterAdd_fst.2 ⟨rid, hvalid, r, hrid, haddress, hhandle⟩, Option.some_or]
  · rw [hbalancer, mem_getAllServers_addServers, htracked.serverAddresses, h.pool, h.serverAddresses]
    simp only [List.mem_map, hmem]
    constructor
    · rintro (hkey | ⟨r, hr, haddress⟩)
      · obtain ⟨handle, hget⟩ := Option.isSome_iff_exists.1 (Dict.mem_keys_iff.1 hkey)
        obtain ⟨rid, hvalid, r, hr, haddress, -⟩ := filterAdd_fst.1 hget
        exact ⟨r, Or.inr ⟨rid, hvalid, hr⟩, haddress⟩
      · exact ⟨r, Or.inl hr, haddress⟩
    · rintro ⟨r, hold | ⟨rid, hvalid, hr⟩, haddress⟩
      · exact Or.inr ⟨r, hold, haddress⟩
      · refine Or.inl (Dict.mem_keys_iff.2 ?_)
        rw [filterAdd_fst.2 ⟨rid, hvalid, r, hr, haddress, rfl⟩]
        rfl
  · refine (changed_eq hnodup (fun rid hrid => (hsleeping rid hrid).2) fun rid hkey => ?_).symm
    rw [halive]
    by_cases hvalid : rid ∈ (filterAdd d m resourceIds).2
    · simp [hvalid, (hsleeping rid hvalid).1, Dict.mem_keys_iff.1 hkey]
    · simp [hvalid]

/-- **A successful `remove_replicas`** of ids without repetition. -/
theorem Consistent.removeReplicas (h : Consistent d m) (hne : (filterRemove m resourceIds).2 ≠ [])
    (hnodup : (filterRemove m resourceIds).2.Nodup) :
    Consistent d (removeReplicas m resourceIds true).1 ∧
      (removeReplicas m resourceIds true).2 = changed d m (removeReplicas m resourceIds true).1 := by
  have hids : ¬ (filterRemove m resourceIds).1 = [] := fun hnil => hne ((filterRemove_empty h.aliveAddresses).1 hnil)
  have hactive : ∀ rid ∈ (filterRemove m resourceIds).2, (m.aliveReplicas.get? rid).isSome := by
    intro rid hrid
    rw [filterRemove_snd h.aliveAddresses, List.mem_filter] at hrid
    exact Dict.mem_keys_iff.1 (by simpa using hrid.2)
  obtain ⟨m', hout, htracked, halive, hbalancer⟩ :=
    (h.toTracked.withBalancer (m.globalLoadBalancer.removeServers (filterRemove m resourceIds).1)).deactivateAll
      hnodup hactive
  simp only [HybridReplicas.removeReplicas, hids, if_false, if_true, hout]
  have hget : ∀ rid, m'.aliveReplicas.get? rid =
      if rid ∈ (filterRemove m resourceIds).2 then none else m.aliveReplicas.get? rid := by
    intro rid
    rw [halive]
    exact Dict.get?_clear _ _ _
  have hmem : ∀ r, r ∈ m'.rolloutReplicas ↔
      r ∈ m.rolloutReplicas ∧ r.serverAddress ∉ (filterRemove m resourceIds).1 := by
    intro r
    rw [htracked.replicas, h.replicas, filterRemove_fst h.aliveAddresses]
    simp only [hget]
    constructor
    · rintro (hstandalone | ⟨rid, hrid⟩)
      · refine ⟨Or.inl hstandalone, ?_⟩
        rintro ⟨rid', -, r', hr', haddress⟩
        have hhybrid := h.registered rid' r' hr'
        obtain rfl := Deployment.eq_of_address (Deployment.mem_replicas hhybrid)
          (List.mem_append_left _ hstandalone) haddress
        exact Deployment.not_standalone hhybrid hstandalone
      · split at hrid
        · cases hrid
        · rename_i hvalid
          refine ⟨Or.inr ⟨rid, hrid⟩, ?_⟩
          rintro ⟨rid', hvalid', r', hr', haddress⟩
          have hhybrid := h.registered rid r hrid
          have hhybrid' := h.registered rid' r' hr'
          obtain rfl := Deployment.eq_of_address (Deployment.mem_replicas hhybrid') (Deployment.mem_replicas hhybrid)
            haddress
          exact hvalid (Deployment.id_unique hhybrid' hhybrid ▸ hvalid')
    · rintro ⟨hstandalone | ⟨rid, hrid⟩, hnot⟩
      · exact Or.inl hstandalone
      · refine Or.inr ⟨rid, ?_⟩
        rw [if_neg, hrid]
        intro hvalid
        exact hnot ⟨rid, hvalid, r, hrid, rfl⟩
  refine ⟨⟨htracked, fun address handle => ?_, fun address => ?_⟩, ?_⟩
  · rw [hbalancer]
    change (m.globalLoadBalancer.servers.clear _).get? address = _ ↔ _
    rw [Dict.get?_clear]
    constructor
    · intro hserver
      split at hserver
      · cases hserver
      · rename_i hnot
        obtain ⟨r, hr, rfl, hhandle⟩ := (h.balancer address handle).1 hserver
        exact ⟨r, (hmem r).2 ⟨hr, hnot⟩, rfl, hhandle⟩
    · rintro ⟨r, hr, rfl, hhandle⟩
      rw [if_neg ((hmem r).1 hr).2]
      exact (h.balancer _ handle).2 ⟨r, ((hmem r).1 hr).1, rfl, hhandle⟩
  · rw [hbalancer]
    change address ∈ (m.globalLoadBalancer.inflightRequests.clear _).keys ↔ _
    rw [Dict.mem_keys_clear, htracked.serverAddresses]
    have hpool := h.pool address
    unfold Balancer.getAllServers at hpool
    rw [hpool, h.serverAddresses]
    simp only [List.mem_map, hmem]
    constructor
    · rintro ⟨⟨r, hr, rfl⟩, hnot⟩
      exact ⟨r, ⟨hr, hnot⟩, rfl⟩
    · rintro ⟨r, ⟨hr, hnot⟩, rfl⟩
      exact ⟨⟨r, hr, rfl⟩, hnot⟩
  · refine (changed_eq hnodup (fun rid hrid => ?_) fun rid _ => ?_).symm
    · obtain ⟨r, hr⟩ := Option.isSome_iff_exists.1 (hactive rid hrid)
      rw [Dict.mem_keys_iff, h.registered rid r hr]
      rfl
    · rw [hget]
      by_cases hvalid : rid ∈ (filterRemove m resourceIds).2
      · simp [hvalid, hactive rid hvalid]
      · simp [hvalid]

/-- **What `add_replicas` activates**, with or without repetitions. -/
theorem get?_activateAll (valid : List String) (m : Manager C H) (rid : String) :
    (valid.foldl (activate d) m).aliveReplicas.get? rid =
      if rid ∈ valid ∧ rid ∈ d.hybridReplicas.keys then d.hybridReplicas.get? rid else m.aliveReplicas.get? rid := by
  induction valid generalizing m with
  | nil => simp
  | cons rid' valid ih =>
    rw [List.foldl_cons, ih]
    unfold activate
    cases hr : d.hybridReplicas.get? rid' with
    | none =>
      have hnot : rid' ∉ d.hybridReplicas.keys := Dict.get?_eq_none.1 hr
      refine if_congr ?_ rfl rfl
      constructor
      · exact And.imp_left (List.mem_cons_of_mem _)
      · rintro ⟨hmem, hkey⟩
        refine ⟨(List.mem_cons.1 hmem).resolve_left ?_, hkey⟩
        rintro rfl
        exact hnot hkey
    | some r =>
      have hkey : rid' ∈ d.hybridReplicas.keys := by rw [Dict.mem_keys_iff, hr]; rfl
      simp only [Dict.get?_update]
      by_cases hsame : rid = rid'
      · simp [hsame, hkey, hr]
      · simp [hsame]

theorem sleeping_deactivateAll (valid : List String) {m : Manager C H} {rid : String}
    (h : m.aliveReplicas.get? rid = none) : (deactivateAll m valid).1.aliveReplicas.get? rid = none := by
  induction valid generalizing m with
  | nil => exact h
  | cons rid' valid ih =>
    rw [deactivateAll]
    unfold deactivate
    split
    · rename_i m' hdeactivate
      split at hdeactivate
      · obtain rfl := Option.some.inj hdeactivate
        refine ih ?_
        rw [forget, Dict.get?_clear, h, ite_self]
      · cases hdeactivate
    · exact h

theorem nodup_of_deactivateAll {valid : List String} {m : Manager C H} (h : (deactivateAll m valid).2 = true) :
    valid.Nodup ∧ ∀ rid ∈ valid, (m.aliveReplicas.get? rid).isSome := by
  induction valid generalizing m with
  | nil => exact ⟨List.nodup_nil, nofun⟩
  | cons rid valid ih =>
    rw [deactivateAll] at h
    unfold deactivate at h
    split at h
    · rename_i m' hdeactivate
      split at hdeactivate
      · rename_i address replica _ hreplica
        obtain rfl := Option.some.inj hdeactivate
        obtain ⟨hnodup, hactive⟩ := ih h
        -- the replica sleeps from now on
        have hsome : ∀ rid' ∈ valid, rid' ≠ rid ∧ (m.aliveReplicas.get? rid').isSome := by
          intro rid' hrid'
          have hstill := hactive rid' hrid'
          rw [forget, Dict.get?_clear] at hstill
          split at hstill
          · cases hstill
          · rename_i hne
            exact ⟨fun heq => hne (heq ▸ List.mem_cons_self), hstill⟩
        refine ⟨List.nodup_cons.2 ⟨fun hmem => (hsome rid hmem).1 rfl, hnodup⟩, fun rid' hrid' => ?_⟩
        rcases List.mem_cons.1 hrid' with rfl | hrest
        · exact Option.isSome_of_eq_some hreplica
        · exact (hsome rid' hrest).2
      · cases hdeactivate
    · cases h

/-- **A repeated id makes `add_replicas` return too much.** -/
theorem returned_addReplicas (hrepeated : ¬ (filterAdd d m resourceIds).2.Nodup) :
    changed d m (addReplicas d m resourceIds true).1 < (addReplicas d m resourceIds true).2 := by
  have hitems : ¬ (filterAdd d m resourceIds).1.items = [] := by
    rw [filterAdd_empty]
    intro hnil
    exact hrepeated (hnil ▸ List.nodup_nil)
  simp only [addReplicas, hitems, if_false, if_true]
  refine changed_lt hrepeated fun rid hdiff => ?_
  rw [get?_activateAll] at hdiff
  by_contra hnot
  rw [if_neg fun hboth => hnot hboth.1] at hdiff
  exact hdiff rfl

/-- **A repeated id makes `remove_replicas` return 0**, although a replica has been deactivated. -/
theorem returned_removeReplicas (h : Consistent d m) (hrepeated : ¬ (filterRemove m resourceIds).2.Nodup) :
    (removeReplicas m resourceIds true).2 < changed d m (removeReplicas m resourceIds true).1 := by
  have hids : ¬ (filterRemove m resourceIds).1 = [] := by
    rw [filterRemove_empty h.aliveAddresses]
    intro hnil
    exact hrepeated (hnil ▸ List.nodup_nil)
  have hfail : (deactivateAll { m with globalLoadBalancer :=
      m.globalLoadBalancer.removeServers (filterRemove m resourceIds).1 } (filterRemove m resourceIds).2).2 = false := by
    by_contra htrue
    exact hrepeated (nodup_of_deactivateAll (by simpa using htrue)).1
  simp only [removeReplicas, hids, if_false, if_true, hfail, Bool.false_eq_true]
  obtain ⟨rid, rids, hvalid⟩ : ∃ rid rids, (filterRemove m resourceIds).2 = rid :: rids := by
    cases hids : (filterRemove m resourceIds).2 with
    | nil => exact absurd (hids ▸ List.nodup_nil) hrepeated
    | cons rid rids => exact ⟨rid, rids, rfl⟩
  have hactive : (m.aliveReplicas.get? rid).isSome := by
    have hmem : rid ∈ (filterRemove m resourceIds).2 := hvalid ▸ List.mem_cons_self
    rw [filterRemove_snd h.aliveAddresses, List.mem_filter] at hmem
    exact Dict.mem_keys_iff.1 (by simpa using hmem.2)
  obtain ⟨r, hr⟩ := Option.isSome_iff_exists.1 hactive
  refine List.countP_pos_iff.2 ⟨rid, ?_, ?_⟩
  · rw [Dict.mem_keys_iff, h.registered rid r hr]
    rfl
  · have hasleep : ∀ b : Balancer C H, (deactivateAll { m with globalLoadBalancer := b }
        (rid :: rids)).1.aliveReplicas.get? rid = none := by
      intro b
      rw [deactivateAll, deactivate]
      simp only [get?_aliveAddresses h.aliveAddresses, hr, Option.map_some]
      refine sleeping_deactivateAll rids ?_
      rw [forget, Dict.get?_clear, if_pos List.mem_cons_self]
    rw [hvalid, hasleep, hr]
    rfl

/-- **A call is booked exactly when** no id that passes its filter is repeated. -/
theorem booked_iff (h : Consistent d m) (c : Call) : Booked d m c ↔ Unrepeated d m c := by
  have hnothing : call d m c = (m, 0) → Booked d m c := fun hcall =>
    ⟨by rw [hcall]; exact h, by rw [hcall]; exact changed_self.symm, fun _ => by rw [hcall]⟩
  cases c with
  | addReplicas resourceIds rpc =>
    cases rpc with
    | false =>
      refine ⟨fun _ => nofun, fun _ => hnothing ?_⟩
      simp [call, addReplicas]
    | true =>
      unfold Unrepeated validIds
      simp only [Call.rpc, true_implies]
      rw [← filterAdd_snd]
      constructor
      · intro hbooked
        by_contra hrepeated
        have hlt := returned_addReplicas hrepeated
        have hreturned : (addReplicas d m resourceIds true).2 = changed d m (addReplicas d m resourceIds true).1 :=
          hbooked.returned
        omega
      · intro hnodup
        by_cases hnil : (filterAdd d m resourceIds).2 = []
        · refine hnothing ?_
          simp only [call, addReplicas, filterAdd_empty.2 hnil, if_true]
        · obtain ⟨hconsistent, hreturned⟩ := h.addReplicas hnil hnodup
          exact ⟨hconsistent, hreturned, nofun⟩
  | removeReplicas resourceIds rpc =>
    cases rpc with
    | false =>
      refine ⟨fun _ => nofun, fun _ => hnothing ?_⟩
      simp [call, removeReplicas]
    | true =>
      unfold Unrepeated validIds
      simp only [Call.rpc, true_implies]
      rw [← filterRemove_snd h.aliveAddresses]
      constructor
      · intro hbooked
        by_contra hrepeated
        have hlt := returned_removeReplicas h hrepeated
        have hreturned : (removeReplicas m resourceIds true).2 = changed d m (removeReplicas m resourceIds true).1 :=
          hbooked.returned
        omega
      · intro hnodup
        by_cases hnil : (filterRemove m resourceIds).2 = []
        · refine hnothing ?_
          simp only [call, removeReplicas, (filterRemove_empty h.aliveAddresses).2 hnil, if_true]
        · obtain ⟨hconsistent, hreturned⟩ := h.removeReplicas hnil hnodup
          exact ⟨hconsistent, hreturned, nofun⟩

theorem along_booked_iff (h : Consistent d m) (calls : List Call) :
    Along d (Booked d) m calls ↔ Along d (Unrepeated d) m calls := by
  induction calls generalizing m with
  | nil => exact Iff.rfl
  | cons c calls ih =>
    constructor
    · rintro ⟨hbooked, hrest⟩
      exact ⟨(booked_iff h c).1 hbooked, (ih hbooked.consistent).1 hrest⟩
    · rintro ⟨hunrepeated, hrest⟩
      have hbooked := (booked_iff h c).2 hunrepeated
      exact ⟨hbooked, (ih hbooked.consistent).2 hrest⟩

/-! ## The number of active servers -/

/-- The count of active servers after a call is the size of the set. -/
def Counted (d : Deployment H) (m : Manager C H) (c : Call) : Prop :=
  (call d m c).1.getActiveServerCount = (call d m c).1.rolloutReplicas.length

theorem counted_iff {c : Call} : Counted d m c ↔ (call d m c).1.aliveReplicas.items = [] := by
  unfold Counted Manager.getActiveServerCount
  rw [← List.length_eq_zero_iff]
  omega

theorem call_of_sleeping (halive : m.aliveReplicas.items = []) {c : Call} (h : ¬ Activates d c) :
    call d m c = (m, 0) := by
  have hkeys : m.aliveReplicas.keys = [] := by rw [Dict.keys, halive, List.map_nil]
  cases c with
  | addReplicas resourceIds rpc =>
    cases rpc with
    | false => simp [call, addReplicas]
    | true =>
      have hvalid : (filterAdd d m resourceIds).2 = [] := by
        rw [filterAdd_snd, List.filter_eq_nil_iff]
        intro rid hrid hpass
        exact h ⟨rfl, rid, hrid, (by simpa using hpass : _ ∧ _).2⟩
      simp only [call, addReplicas, filterAdd_empty.2 hvalid, if_true]
  | removeReplicas resourceIds rpc =>
    have hids : (filterRemove m resourceIds).1 = [] := by
      unfold filterRemove
      clear h
      induction resourceIds with
      | nil => rfl
      | cons rid rids ih =>
        rw [List.foldl_cons, if_pos (by rw [hkeys]; exact List.not_mem_nil)]
        exact ih
    simp only [call, removeReplicas, hids, if_true]

theorem alive_of_activates {c : Call} (h : Activates d c) : (call d m c).1.aliveReplicas.items ≠ [] := by
  cases c with
  | removeReplicas resourceIds rpc => exact h.elim
  | addReplicas resourceIds rpc =>
    obtain ⟨rfl, rid, hrid, hkey⟩ := h
    have halive : ((call d m (.addReplicas resourceIds true)).1.aliveReplicas.get? rid).isSome := by
      by_cases hactive : rid ∈ m.aliveReplicas.keys
      · -- the replica was active before the call
        by_cases hitems : (filterAdd d m resourceIds).1.items = []
        · simpa only [call, addReplicas, hitems, if_true] using Dict.mem_keys_iff.1 hactive
        · simp only [call, addReplicas, hitems, if_false, if_true]
          rw [get?_activateAll]
          split
          · exact Dict.mem_keys_iff.1 hkey
          · exact Dict.mem_keys_iff.1 hactive
      · have hvalid : rid ∈ (filterAdd d m resourceIds).2 := by
          rw [filterAdd_snd, List.mem_filter]
          exact ⟨hrid, by simp [hactive, hkey]⟩
        have hitems : ¬ (filterAdd d m resourceIds).1.items = [] := by
          rw [filterAdd_empty]
          exact List.ne_nil_of_mem hvalid
        simp only [call, addReplicas, hitems, if_false, if_true]
        rw [get?_activateAll, if_pos ⟨hvalid, hkey⟩]
        exact Dict.mem_keys_iff.1 hkey
    intro hnil
    obtain ⟨r, hr⟩ := Option.isSome_iff_exists.1 halive
    have hmem := Dict.mem_items.2 hr
    rw [hnil] at hmem
    cases hmem

/-- **The count is right exactly as long as nothing is activated.** -/
theorem along_counted_iff (h : Consistent d m) (halive : m.aliveReplicas.items = []) (calls : List Call) :
    Along d (fun m c => Booked d m c ∧ Counted d m c) m calls ↔ ∀ c ∈ calls, ¬ Activates d c := by
  induction calls generalizing m with
  | nil => exact ⟨fun _ => nofun, fun _ => trivial⟩
  | cons c calls ih =>
    rw [List.forall_mem_cons]
    by_cases hactivates : Activates d c
    · constructor
      · rintro ⟨⟨-, hcounted⟩, -⟩
        exact absurd (counted_iff.1 hcounted) (alive_of_activates hactivates)
      · intro hall
        exact absurd hactivates hall.1
    · have hcall := call_of_sleeping halive hactivates
      have hbooked : Booked d m c := ⟨by rw [hcall]; exact h, by rw [hcall]; exact changed_self.symm,
        fun _ => by rw [hcall]⟩
      have hcounted : Counted d m c := counted_iff.2 (by rw [hcall]; exact halive)
      simp only [Along, hbooked, hcounted, hactivates, not_false_eq_true, true_and, and_self]
      rw [hcall]
      exact ih h halive

/-! ## Main theorem -/

theorem Created.consistent (h : Created d m) : Consistent d m where
  replicas r := by
    rw [h.rolloutReplicas, h.aliveReplicas]
    simp [Dict.get?_empty]
  nodup := by
    have hranks := d.ranks.of_map
    rw [List.nodup_append] at hranks
    exact h.rolloutReplicas ▸ hranks.1
  serverAddresses := by rw [h.serverAddresses, h.rolloutReplicas]
  nodupAddresses := by
    have haddresses := d.addresses
    rw [List.map_append, List.nodup_append] at haddresses
    exact h.serverAddresses ▸ haddresses.1
  serverHandles := by rw [h.serverHandles, h.rolloutReplicas]
  aliveAddresses := by
    rw [h.aliveAddresses, h.aliveReplicas]
    rfl
  registered rid r hr := by
    rw [h.aliveReplicas] at hr
    cases hr
  balancer address handle := by
    have hservers : m.globalLoadBalancer.servers = d.servers := by
      have hnew := h.balancer
      unfold Balancer.new? at hnew
      split at hnew
      · cases hnew
      · rw [← Option.some.inj hnew]
    rw [hservers, ← Dict.mem_items, h.rolloutReplicas]
    unfold Deployment.servers
    simp only [List.mem_map, Prod.mk.injEq]
  pool address := by
    have hnew := h.balancer
    unfold Balancer.new? at hnew
    split at hnew
    · cases hnew
    · rw [← Option.some.inj hnew, h.serverAddresses]
      unfold Balancer.getAllServers Dict.keys Deployment.servers
      simp only [List.map_map, List.mem_map, Function.comp_apply]

/-- **The bookkeeping of hybrid replicas.** The collections, the balancer, the number of active
servers, the returned number and the effect of failures are right after every call exactly when
no call activates a replica: `get_active_server_count` counts the active hybrid replicas twice.
All the rest is right exactly when no id that passes a filter is repeated. -/
theorem bookkeeping_iff (h : Created d m) (calls : List Call) :
    (Along d (fun m c => Booked d m c ∧ Counted d m c) m calls ↔ ∀ c ∈ calls, ¬ Activates d c) ∧
      (Along d (Booked d) m calls ↔ Along d (Unrepeated d) m calls) :=
  ⟨along_counted_iff h.consistent (by rw [h.aliveReplicas]; rfl) calls, along_booked_iff h.consistent calls⟩

end Calls

/-! ## A standalone and a hybrid replica -/

/-- One replica of each kind: the hybrid one has the lower rank. -/
def pair : Deployment ℕ where
  standalone := [⟨1, "standalone", 1⟩]
  hybridReplicas := ⟨[("hybrid_0", ⟨0, "hybrid", 0⟩)], by decide⟩
  ranks := by decide
  addresses := by decide

def fresh : Manager (lru String String 10000) ℕ where
  rolloutReplicas := pair.standalone
  serverAddresses := ["standalone"]
  serverHandles := [1]
  aliveReplicas := .empty
  aliveAddresses := .empty
  globalLoadBalancer := ⟨pair.servers, ⟨[("standalone", 0)], by decide⟩, .empty⟩

theorem created_fresh : Created pair fresh where
  rolloutReplicas := rfl
  serverAddresses := rfl
  serverHandles := rfl
  aliveReplicas := rfl
  aliveAddresses := rfl
  balancer := rfl

theorem bookkeeping_pair :
    Along pair (Booked pair) fresh [.addReplicas ["hybrid_0", "hybrid_1"] true, .removeReplicas ["hybrid_0"] true] := by
  refine (bookkeeping_iff created_fresh _).2.2 ⟨?_, ?_, trivial⟩
  · intro _
    decide
  · intro _
    decide

/-- Three active servers are counted where there are two, and a repeated id is counted twice. -/
theorem counted_twice :
    ¬ Along pair (fun m c => Booked pair m c ∧ Counted pair m c) fresh [.addReplicas ["hybrid_0"] true] ∧
      (call pair fresh (.addReplicas ["hybrid_0"] true)).1.getActiveServerCount = 3 ∧
      (call pair fresh (.addReplicas ["hybrid_0"] true)).1.globalLoadBalancer.getAllServers = ["standalone", "hybrid"] ∧
      (call pair fresh (.addReplicas ["hybrid_0", "hybrid_0"] true)).2 = 2 := by
  refine ⟨?_, by decide, by decide, by decide⟩
  rintro ⟨⟨-, hcounted⟩, -⟩
  revert hcounted
  unfold Counted
  decide

end Opd.Verl.HybridReplicas
