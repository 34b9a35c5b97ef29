import ChatgptSystem.Native.RecoveryEngine
import Mathlib.Data.List.Induction
import Mathlib.Data.List.Nodup

/-!
# The cache of observations

`ComputerObservationCache` with all its calls, and what has been stored in it. An identifier that
is stored again under another context stays the current one of the first context too.

* `StoredObservation`, `ObservationCache` — the cache, with the capabilities of its observations;
* `CacheCall`, `run` — a run of calls, with what has been stored and not been invalidated;
* `latest` — the most recently stored observation of a context;
* `CacheRun.Faithful`, `Allowed` — what the cache is for, and the calls that keep it so;
* `ObservationCache.forget_store` — the cache of the recovery engine is this one without the
  capabilities.
-/

namespace TargetRecovery

/-! ## The cache -/

inductive AXQuality where
  | unknown
  | strong
  | partially
  | weak
  deriving DecidableEq

inductive OCRUsefulness where
  | unknown
  | yes
  | no
  deriving DecidableEq

structure PerceptionCapabilityProfile (T D : Type) where
  axQuality : AXQuality
  ocrUseful : OCRUsefulness
  lastObservationMonotonicMs : D
  windowGeneration : T

structure StoredObservation (T D : Type) extends CachedComputerObservation T D where
  createdMonotonicMs : D
  capability : PerceptionCapabilityProfile T D

def StoredObservation.context {T D : Type} (stored : StoredObservation T D) : ContextKey T :=
  contextKey stored.toCachedComputerObservation

def StoredObservation.replacingCapability {T D : Type} (stored : StoredObservation T D)
    (capability : PerceptionCapabilityProfile T D) : StoredObservation T D :=
  { stored with capability }

structure ObservationCache (T D : Type) where
  capacity : ℕ
  capacity_pos : 0 < capacity
  entriesByObservationId : T → Option (StoredObservation T D)
  currentObservationIdByContext : ContextKey T → Option T
  order : List T

structure CapabilityOwner (T : Type) where
  appIdentity : T
  windowIdentity : T
  windowGeneration : T

section Cache

variable {T D : Type} [DecidableEq T]

/-- An observation is one of the owner, under any arrangement of displays. -/
def CapabilityOwner.owns (owner : CapabilityOwner T) (stored : StoredObservation T D) : Bool :=
  stored.appIdentity = owner.appIdentity && stored.windowIdentity = owner.windowIdentity &&
    stored.windowGeneration = owner.windowGeneration

namespace ObservationCache

/-- `max(1, capacity)`. -/
def init (capacity : ℤ) : ObservationCache T D :=
  { capacity := (max 1 capacity).toNat
    capacity_pos := by omega
    entriesByObservationId := fun _ => none
    currentObservationIdByContext := fun _ => none
    order := [] }

def evict (cache : ObservationCache T D) (oldestObservationId : T) : ObservationCache T D :=
  match cache.entriesByObservationId oldestObservationId with
  | none => cache
  | some removed =>
    { cache with
      entriesByObservationId :=
        Function.update cache.entriesByObservationId oldestObservationId none
      currentObservationIdByContext :=
        if cache.currentObservationIdByContext removed.context = some oldestObservationId then
          Function.update cache.currentObservationIdByContext removed.context none
        else cache.currentObservationIdByContext }

/-- `trimToCapacity`, on an order. -/
def trimToCapacity (cache : ObservationCache T D) : List T → ObservationCache T D
  | [] => { cache with order := [] }
  | oldest :: rest =>
    if rest.length + 1 > cache.capacity then trimToCapacity (cache.evict oldest) rest
    else { cache with order := oldest :: rest }

def store (cache : ObservationCache T D) (observation : StoredObservation T D) :
    ObservationCache T D :=
  let observationId := observation.observationId
  let order := if (cache.entriesByObservationId observationId).isSome then
    cache.order.filter (· ≠ observationId) else cache.order
  trimToCapacity
    { cache with
      entriesByObservationId :=
        Function.update cache.entriesByObservationId observationId (some observation)
      currentObservationIdByContext :=
        Function.update cache.currentObservationIdByContext observation.context
          (some observationId) }
    (order ++ [observationId])

def current (cache : ObservationCache T D) (context : ContextKey T) :
    Option (StoredObservation T D) :=
  (cache.currentObservationIdByContext context).bind cache.entriesByObservationId

def observation (cache : ObservationCache T D) (snapshotId : T) : Option (StoredObservation T D) :=
  cache.entriesByObservationId snapshotId

def invalidate (cache : ObservationCache T D) : ObservationCache T D :=
  { cache with
    entriesByObservationId := fun _ => none
    currentObservationIdByContext := fun _ => none
    order := [] }

/-- The loop of `updateCapability` over the order. -/
def replaceCapabilities (owner : CapabilityOwner T)
    (capability : PerceptionCapabilityProfile T D)
    (entries : T → Option (StoredObservation T D)) : List T → T → Option (StoredObservation T D)
  | [] => entries
  | observationId :: order =>
    match entries observationId with
    | none => replaceCapabilities owner capability entries order
    | some existing =>
      if owner.owns existing then
        replaceCapabilities owner capability
          (Function.update entries observationId (some (existing.replacingCapability capability)))
          order
      else replaceCapabilities owner capability entries order

def updateCapability (cache : ObservationCache T D) (owner : CapabilityOwner T)
    (capability : PerceptionCapabilityProfile T D) : ObservationCache T D :=
  { cache with
    entriesByObservationId :=
      replaceCapabilities owner capability cache.entriesByObservationId cache.order }

end ObservationCache

/-! ## Runs -/

inductive CacheCall (T D : Type) where
  | store (observation : StoredObservation T D)
  | current (context : ContextKey T)
  | observation (snapshotId : T)
  | updateCapability (owner : CapabilityOwner T) (capability : PerceptionCapabilityProfile T D)
  | invalidate

def CapabilityOwner.refresh (owner : CapabilityOwner T)
    (capability : PerceptionCapabilityProfile T D) (stored : StoredObservation T D) :
    StoredObservation T D :=
  if owner.owns stored then stored.replacingCapability capability else stored

/-- A cache and what has been stored in it since it was last invalidated, the latest first, with
its capabilities as they have been replaced since. -/
structure CacheRun (T D : Type) where
  cache : ObservationCache T D
  log : List (StoredObservation T D)

def CacheRun.next (state : CacheRun T D) : CacheCall T D → CacheRun T D
  | .store observation => ⟨state.cache.store observation, observation :: state.log⟩
  | .current _ => state
  | .observation _ => state
  | .updateCapability owner capability =>
    ⟨state.cache.updateCapability owner capability, state.log.map (owner.refresh capability)⟩
  | .invalidate => ⟨state.cache.invalidate, []⟩

def run (capacity : ℤ) (calls : List (CacheCall T D)) : CacheRun T D :=
  calls.foldl CacheRun.next ⟨ObservationCache.init capacity, []⟩

/-- The most recently stored observation of a context, unless its identifier has been stored again
since. -/
def latest (context : ContextKey T) : List (StoredObservation T D) → Option (StoredObservation T D)
  | [] => none
  | observation :: log =>
    if observation.context = context then some observation
    else (latest context log).filter (·.observationId ≠ observation.observationId)

structure CacheRun.Faithful (state : CacheRun T D) : Prop where
  nodup : state.cache.order.Nodup
  order_iff : ∀ id, id ∈ state.cache.order ↔ (state.cache.observation id).isSome
  length_le : state.cache.order.length ≤ state.cache.capacity
  context_eq : ∀ context id stored,
    state.cache.currentObservationIdByContext context = some id →
    state.cache.observation id = some stored → stored.context = context
  current_eq : ∀ context, state.cache.current context =
    (latest context state.log).filter (·.observationId ∈ state.cache.order)

/-- A call does not store an identifier under another context while it is the one of the current
observation of a context. -/
def Allowed (state : CacheRun T D) : CacheCall T D → Prop
  | .store observation => ∀ context stored, state.cache.current context = some stored →
    stored.observationId = observation.observationId → context = observation.context
  | _ => True

/-! ## What a call changes -/

variable {cache : ObservationCache T D} {order : List T} {state : CacheRun T D}
  {log : List (StoredObservation T D)}

namespace ObservationCache

@[simp] theorem evict_capacity (id : T) : (cache.evict id).capacity = cache.capacity := by
  rw [evict]
  split <;> rfl

@[simp] theorem evict_entries (id : T) : (cache.evict id).entriesByObservationId =
    Function.update cache.entriesByObservationId id none := by
  rw [evict]
  split
  next hnone => rw [← hnone, Function.update_eq_self]
  next => rfl

theorem evict_current_eq_some_iff {id other : T} {context : ContextKey T} :
    (cache.evict id).currentObservationIdByContext context = some other ↔
      cache.currentObservationIdByContext context = some other ∧
        ¬ (other = id ∧ ∃ removed, cache.entriesByObservationId id = some removed ∧
          removed.context = context) := by
  rw [evict]
  split
  next hnone => simp [hnone]
  next removed hremoved =>
  simp only [hremoved, Option.some.injEq, exists_eq_left']
  by_cases hcontext : removed.context = context
  · subst hcontext
    by_cases hcurrent : cache.currentObservationIdByContext removed.context = some id
    · rw [if_pos hcurrent, Function.update_self, hcurrent]
      constructor
      · intro h
        cases h
      · rintro ⟨hother, hne⟩
        exact absurd ⟨(Option.some.inj hother).symm, rfl⟩ hne
    · rw [if_neg hcurrent]
      refine ⟨fun h => ⟨h, ?_⟩, And.left⟩
      rintro ⟨rfl, -⟩
      exact hcurrent h
  · have hsame : (if cache.currentObservationIdByContext removed.context = some id then
        Function.update cache.currentObservationIdByContext removed.context none
        else cache.currentObservationIdByContext) context =
        cache.currentObservationIdByContext context := by
      split
      · exact Function.update_of_ne (Ne.symm hcontext) _ _
      · rfl
    rw [hsame]
    exact ⟨fun h => ⟨h, fun hand => hcontext hand.2⟩, And.left⟩

theorem exists_trimToCapacity {P : ObservationCache T D → List T → Prop}
    (hevict : ∀ cache oldest rest, rest ≠ [] → P cache (oldest :: rest) →
      P (cache.evict oldest) rest)
    (h : P cache order) : ∃ kept rest, cache.trimToCapacity order = { kept with order := rest } ∧
      kept.capacity = cache.capacity ∧ P kept rest ∧ rest.length ≤ cache.capacity := by
  induction order generalizing cache with
  | nil => exact ⟨cache, [], rfl, rfl, h, Nat.zero_le _⟩
  | cons oldest rest ih =>
    rw [trimToCapacity]
    split
    next hlong =>
      have hrest : rest ≠ [] := by
        rintro rfl
        have hpos := cache.capacity_pos
        simp only [List.length_nil] at hlong
        omega
      obtain ⟨kept, rest', heq, hcapacity, hP, hlength⟩ := ih (hevict cache oldest rest hrest h)
      rw [evict_capacity] at hcapacity hlength
      exact ⟨kept, rest', heq, hcapacity, hP, hlength⟩
    next hle => exact ⟨cache, oldest :: rest, rfl, rfl, h, by simpa using hle⟩

/-- Every observation of an order is stored under its own identifier, and no other is stored. -/
structure Lists (cache : ObservationCache T D) (order : List T) : Prop where
  nodup : order.Nodup
  order_iff : ∀ id, id ∈ order ↔ (cache.entriesByObservationId id).isSome
  id_eq : ∀ id stored, cache.entriesByObservationId id = some stored → stored.observationId = id

theorem Lists.evict {oldest : T} {rest : List T} (h : Lists cache (oldest :: rest)) :
    Lists (cache.evict oldest) rest := by
  obtain ⟨hnot, hnodup⟩ := List.nodup_cons.mp h.nodup
  refine ⟨hnodup, fun id => ?_, fun id stored hstored => ?_⟩
  · rw [evict_entries]
    by_cases hid : id = oldest
    · subst hid
      simp [hnot]
    · rw [Function.update_of_ne hid, ← h.order_iff, List.mem_cons]
      simp [hid]
  · rw [evict_entries] at hstored
    by_cases hid : id = oldest
    · subst hid
      rw [Function.update_self] at hstored
      cases hstored
    · rw [Function.update_of_ne hid] at hstored
      exact h.id_eq id stored hstored

/-- The cache after an observation has been put in and before it is trimmed. -/
def put (cache : ObservationCache T D) (observation : StoredObservation T D) :
    ObservationCache T D :=
  { cache with
    entriesByObservationId :=
      Function.update cache.entriesByObservationId observation.observationId (some observation)
    currentObservationIdByContext :=
      Function.update cache.currentObservationIdByContext observation.context
        (some observation.observationId) }

@[simp] theorem put_entries (observation : StoredObservation T D) :
    (cache.put observation).entriesByObservationId =
      Function.update cache.entriesByObservationId observation.observationId (some observation) :=
  rfl

@[simp] theorem put_current (observation : StoredObservation T D) :
    (cache.put observation).currentObservationIdByContext =
      Function.update cache.currentObservationIdByContext observation.context
        (some observation.observationId) :=
  rfl

def putOrder (cache : ObservationCache T D) (observation : StoredObservation T D) : List T :=
  cache.order.filter (· ≠ observation.observationId) ++ [observation.observationId]

section

variable (h : Lists cache cache.order) (observation : StoredObservation T D)

include h

theorem store_eq :
    cache.store observation =
      (cache.put observation).trimToCapacity (cache.putOrder observation) := by
  rw [store, put, putOrder]
  congr 2
  split
  · rfl
  next hnone =>
    refine (List.filter_eq_self.mpr fun id hid => ?_).symm
    have hne : id ≠ observation.observationId := by
      rintro rfl
      exact hnone ((h.order_iff _).mp hid)
    simpa using hne

theorem Lists.put : Lists (cache.put observation) (cache.putOrder observation) := by
  refine ⟨?_, fun id => ?_, fun id stored hstored => ?_⟩
  · rw [putOrder, List.nodup_append]
    refine ⟨h.nodup.filter _, List.nodup_singleton _, ?_⟩
    rintro a ha b hb rfl
    have hne := (List.mem_filter.mp ha).2
    rw [List.mem_singleton.mp hb] at hne
    simp at hne
  · rw [putOrder, put_entries, List.mem_append, List.mem_filter, List.mem_singleton]
    by_cases hid : id = observation.observationId
    · simp [hid]
    · simp [hid, h.order_iff]
  · rw [put_entries] at hstored
    by_cases hid : id = observation.observationId
    · subst hid
      rw [Function.update_self] at hstored
      exact congrArg (·.observationId) (Option.some.inj hstored).symm
    · rw [Function.update_of_ne hid] at hstored
      exact h.id_eq id stored hstored

theorem Lists.store :
    Lists (cache.store observation) (cache.store observation).order ∧
      (cache.store observation).order.length ≤ cache.capacity ∧
      (cache.store observation).capacity = cache.capacity := by
  obtain ⟨kept, rest, heq, hcapacity, hlists, hlength⟩ :=
    exists_trimToCapacity (fun _ _ _ _ => Lists.evict) (h.put observation)
  rw [store_eq h, heq]
  exact ⟨⟨hlists.nodup, hlists.order_iff, hlists.id_eq⟩, hlength, hcapacity⟩

end

/-! ### Capabilities -/

section

variable (owner : CapabilityOwner T) (capability : PerceptionCapabilityProfile T D)

include owner

theorem context_refresh (stored : StoredObservation T D) :
    (owner.refresh capability stored).context = stored.context := by
  rw [CapabilityOwner.refresh]
  split <;> rfl

theorem observationId_refresh (stored : StoredObservation T D) :
    (owner.refresh capability stored).observationId = stored.observationId := by
  rw [CapabilityOwner.refresh]
  split <;> rfl

theorem refresh_refresh (stored : StoredObservation T D) :
    owner.refresh capability (owner.refresh capability stored) =
      owner.refresh capability stored := by
  by_cases howns : owner.owns stored
  · rw [CapabilityOwner.refresh, CapabilityOwner.refresh, if_pos howns]
    split <;> rfl
  · rw [CapabilityOwner.refresh, CapabilityOwner.refresh, if_neg howns, if_neg howns]

theorem replaceCapabilities_cons (entries : T → Option (StoredObservation T D)) (id : T)
    (order : List T) :
    replaceCapabilities owner capability entries (id :: order) =
      replaceCapabilities owner capability
        (Function.update entries id ((entries id).map (owner.refresh capability))) order := by
  rw [replaceCapabilities]
  split
  next hnone => rw [hnone, Option.map_none, ← hnone, Function.update_eq_self]
  next existing hexisting =>
    rw [hexisting, Option.map_some, CapabilityOwner.refresh]
    split
    · rfl
    · rw [← hexisting, Function.update_eq_self]

theorem replaceCapabilities_eq (entries : T → Option (StoredObservation T D)) (order : List T)
    (id : T) :
    replaceCapabilities owner capability entries order id =
      if id ∈ order then (entries id).map (owner.refresh capability) else entries id := by
  induction order generalizing entries with
  | nil => rfl
  | cons first order ih =>
    rw [replaceCapabilities_cons, ih]
    by_cases hid : id = first
    · subst hid
      have htwice : ((entries id).map (owner.refresh capability)).map (owner.refresh capability) =
          (entries id).map (owner.refresh capability) := by
        cases entries id with
        | none => rfl
        | some stored => exact congrArg some (refresh_refresh owner capability stored)
      simp [htwice]
    · simp [hid]

end

theorem Lists.updateCapability_entries (h : Lists cache cache.order) (owner : CapabilityOwner T)
    (capability : PerceptionCapabilityProfile T D) (id : T) :
    (cache.updateCapability owner capability).entriesByObservationId id =
      (cache.entriesByObservationId id).map (owner.refresh capability) := by
  rw [ObservationCache.updateCapability]
  refine (replaceCapabilities_eq owner capability _ cache.order id).trans ?_
  split
  · rfl
  next hid =>
    have hnone : cache.entriesByObservationId id = none := by
      rw [h.order_iff] at hid
      simpa using hid
    rw [hnone, Option.map_none]

theorem Lists.updateCapability (h : Lists cache cache.order) (owner : CapabilityOwner T)
    (capability : PerceptionCapabilityProfile T D) :
    Lists (cache.updateCapability owner capability)
      (cache.updateCapability owner capability).order := by
  refine ⟨h.nodup, fun id => ?_, fun id stored hstored => ?_⟩
  · rw [h.updateCapability_entries, Option.isSome_map]
    exact h.order_iff id
  · rw [h.updateCapability_entries, Option.map_eq_some_iff] at hstored
    obtain ⟨original, horiginal, rfl⟩ := hstored
    rw [observationId_refresh]
    exact h.id_eq id original horiginal

end ObservationCache

/-! ## Runs -/

section Latest

theorem context_of_latest {context : ContextKey T} {stored : StoredObservation T D}
    (h : latest context log = some stored) : stored.context = context := by
  induction log with
  | nil => cases h
  | cons observation log ih =>
    rw [latest] at h
    split at h
    next hcontext => exact Option.some.inj h ▸ hcontext
    next => exact ih (Option.eq_some_of_filter_eq_some h)

theorem latest_map_refresh (context : ContextKey T) (owner : CapabilityOwner T)
    (capability : PerceptionCapabilityProfile T D) (log : List (StoredObservation T D)) :
    latest context (log.map (owner.refresh capability)) =
      (latest context log).map (owner.refresh capability) := by
  induction log with
  | nil => rfl
  | cons observation log ih =>
    rw [List.map_cons, latest, latest, ObservationCache.context_refresh,
      ObservationCache.observationId_refresh, ih]
    split
    · rfl
    · cases latest context log with
      | none => rfl
      | some stored =>
        simp only [Option.map_some, Option.filter_some, ObservationCache.observationId_refresh]
        split <;> rfl

end Latest

/-- Every current observation is the latest of its context, and the latest observation of a
context is the current one as long as it is kept. -/
structure Indexed (cache : ObservationCache T D) (log : List (StoredObservation T D))
    (order : List T) : Prop where
  points : ∀ context id, cache.currentObservationIdByContext context = some id →
    ∃ stored, cache.entriesByObservationId id = some stored ∧ latest context log = some stored
  found : ∀ context stored, latest context log = some stored → stored.observationId ∈ order →
    cache.currentObservationIdByContext context = some stored.observationId

/-- What holds of a cache in a run, and the part of it that holds as long as every call is
allowed. -/
structure Sound (state : CacheRun T D) : Prop where
  lists : state.cache.Lists state.cache.order
  length_le : state.cache.order.length ≤ state.cache.capacity

theorem Indexed.evict {oldest : T} {rest : List T} (hlists : cache.Lists (oldest :: rest))
    (h : Indexed cache log (oldest :: rest)) : Indexed (cache.evict oldest) log rest := by
  obtain ⟨hnot, -⟩ := List.nodup_cons.mp hlists.nodup
  refine ⟨fun context id hid => ?_, fun context stored hlatest hmem => ?_⟩
  · obtain ⟨hcurrent, hkept⟩ := ObservationCache.evict_current_eq_some_iff.mp hid
    obtain ⟨stored, hstored, hlatest⟩ := h.points context id hcurrent
    have hne : id ≠ oldest := by
      rintro rfl
      exact hkept ⟨rfl, stored, hstored, context_of_latest hlatest⟩
    exact ⟨stored, by rw [ObservationCache.evict_entries, Function.update_of_ne hne, hstored],
      hlatest⟩
  · refine ObservationCache.evict_current_eq_some_iff.mpr
      ⟨h.found context stored hlatest (List.mem_cons_of_mem _ hmem), ?_⟩
    rintro ⟨heq, -⟩
    exact hnot (heq ▸ hmem)

theorem Indexed.put {observation : StoredObservation T D} (hlists : cache.Lists cache.order)
    (h : Indexed cache log cache.order)
    (hallowed : Allowed ⟨cache, log⟩ (.store observation)) :
    Indexed (cache.put observation) (observation :: log) (cache.putOrder observation) := by
  refine ⟨fun context id hid => ?_, fun context stored hlatest hmem => ?_⟩
  · rw [ObservationCache.put_current] at hid
    rw [ObservationCache.put_entries, latest]
    by_cases hcontext : context = observation.context
    · subst hcontext
      rw [Function.update_self] at hid
      obtain rfl := Option.some.inj hid
      exact ⟨observation, Function.update_self _ _ _, if_pos rfl⟩
    · rw [Function.update_of_ne hcontext] at hid
      obtain ⟨stored, hstored, hlatest⟩ := h.points context id hid
      have hid_eq := hlists.id_eq id stored hstored
      have hne : id ≠ observation.observationId := by
        rintro rfl
        refine hcontext (hallowed context stored ?_ hid_eq)
        rw [ObservationCache.current, hid, Option.bind_some, hstored]
      refine ⟨stored, by rw [Function.update_of_ne hne, hstored], ?_⟩
      rw [if_neg (Ne.symm hcontext), hlatest, Option.filter_some_pos]
      simpa [hid_eq] using hne
  · rw [ObservationCache.put_current]
    rw [latest] at hlatest
    by_cases hcontext : observation.context = context
    · rw [if_pos hcontext] at hlatest
      obtain rfl := Option.some.inj hlatest
      rw [← hcontext, Function.update_self]
    · rw [if_neg hcontext, Option.filter_eq_some_iff] at hlatest
      obtain ⟨hlatest, hne⟩ := hlatest
      rw [Function.update_of_ne (Ne.symm hcontext)]
      refine h.found context stored hlatest ?_
      rw [ObservationCache.putOrder, List.mem_append, List.mem_filter, List.mem_singleton] at hmem
      rcases hmem with hmem | hmem
      · exact hmem.1
      · simp [hmem] at hne

theorem Sound.next (h : Sound state) (call : CacheCall T D) : Sound (state.next call) := by
  cases call with
  | store observation =>
    obtain ⟨hlists, hlength, hcapacity⟩ := h.lists.store observation
    exact ⟨hlists, by rw [CacheRun.next, hcapacity]; exact hlength⟩
  | current context => exact h
  | observation snapshotId => exact h
  | updateCapability owner capability =>
    exact ⟨h.lists.updateCapability owner capability, h.length_le⟩
  | invalidate =>
    refine ⟨⟨List.nodup_nil, fun id => ?_, fun id stored hstored => ?_⟩, Nat.zero_le _⟩
    · exact ⟨fun hmem => absurd hmem List.not_mem_nil, fun hsome => by cases hsome⟩
    · cases hstored

theorem Indexed.next (hsound : Sound state) (h : Indexed state.cache state.log state.cache.order)
    {call : CacheCall T D} (hallowed : Allowed state call) :
    Indexed (state.next call).cache (state.next call).log (state.next call).cache.order := by
  cases call with
  | store observation =>
    have hput := h.put hsound.lists hallowed
    obtain ⟨kept, rest, heq, -, ⟨-, hkept⟩, -⟩ := ObservationCache.exists_trimToCapacity
      (P := fun cache order => cache.Lists order ∧ Indexed cache (observation :: state.log) order)
      (fun cache oldest rest _ hboth => ⟨hboth.1.evict, hboth.2.evict hboth.1⟩)
      ⟨hsound.lists.put observation, hput⟩
    rw [CacheRun.next, ObservationCache.store_eq hsound.lists, heq]
    exact ⟨hkept.points, hkept.found⟩
  | current context => exact h
  | observation snapshotId => exact h
  | updateCapability owner capability =>
    refine ⟨fun context id hid => ?_, fun context stored hlatest hmem => ?_⟩
    · obtain ⟨stored, hstored, hlatest⟩ := h.points context id hid
      refine ⟨owner.refresh capability stored, ?_, ?_⟩
      · exact (hsound.lists.updateCapability_entries owner capability id).trans
          (by rw [hstored]; rfl)
      · exact (latest_map_refresh context owner capability state.log).trans
          (by rw [hlatest]; rfl)
    · rw [CacheRun.next, latest_map_refresh, Option.map_eq_some_iff] at hlatest
      obtain ⟨original, horiginal, rfl⟩ := hlatest
      rw [ObservationCache.observationId_refresh] at hmem ⊢
      exact h.found context original horiginal hmem
  | invalidate =>
    refine ⟨fun context id hid => ?_, fun context stored hlatest _ => ?_⟩
    · cases hid
    · cases hlatest

theorem sound_run (capacity : ℤ) (calls : List (CacheCall T D)) : Sound (run capacity calls) := by
  induction calls using List.reverseRecOn with
  | nil =>
    refine ⟨⟨List.nodup_nil, fun id => ?_, fun id stored hstored => ?_⟩, Nat.zero_le _⟩
    · exact ⟨fun hmem => absurd hmem List.not_mem_nil, fun hsome => by cases hsome⟩
    · cases hstored
  | append_singleton calls call ih =>
    rw [run, List.foldl_append]
    exact ih.next call

theorem Sound.faithful (h : Sound state)
    (hpoints : Indexed state.cache state.log state.cache.order) : CacheRun.Faithful state where
  nodup := h.lists.nodup
  order_iff := h.lists.order_iff
  length_le := h.length_le
  context_eq context id stored hcurrent hstored := by
    obtain ⟨other, hother, hlatest⟩ := hpoints.points context id hcurrent
    obtain rfl := Option.some.inj (hstored.symm.trans hother)
    exact context_of_latest hlatest
  current_eq context := by
    rw [ObservationCache.current]
    cases hcurrent : state.cache.currentObservationIdByContext context with
    | none =>
      refine (Option.filter_eq_none_iff.mpr fun stored hlatest hmem => ?_).symm
      have hfound := hpoints.found context stored hlatest (by simpa using hmem)
      rw [hcurrent] at hfound
      cases hfound
    | some id =>
      obtain ⟨stored, hstored, hlatest⟩ := hpoints.points context id hcurrent
      have hmem : stored.observationId ∈ state.cache.order := by
        rw [h.lists.id_eq id stored hstored, h.lists.order_iff, hstored]
        rfl
      rw [Option.bind_some, hstored, hlatest, Option.filter_some_pos (by simpa using hmem)]

theorem Sound.not_faithful_next (h : Sound state) {observation : StoredObservation T D}
    (hno : ¬ Allowed state (.store observation)) :
    ¬ CacheRun.Faithful (state.next (.store observation)) := by
  intro hfaithful
  refine hno fun context stored hcurrent hid => ?_
  obtain ⟨id, hpointer, hstored⟩ := Option.bind_eq_some_iff.mp hcurrent
  have hid' : id = observation.observationId := (h.lists.id_eq id stored hstored).symm.trans hid
  subst hid'
  by_contra hcontext
  -- the newest observation is never evicted, and no other eviction takes the pointer away
  obtain ⟨kept, rest, heq, -, ⟨-, -, hentry, hkept⟩, -⟩ := ObservationCache.exists_trimToCapacity
    (P := fun cache order => cache.Lists order ∧
      order.getLast? = some observation.observationId ∧
      cache.entriesByObservationId observation.observationId = some observation ∧
      cache.currentObservationIdByContext context = some observation.observationId)
    (fun cache oldest rest hrest ⟨hlists, hlast, hentry, hpointer⟩ => by
      rw [List.getLast?_cons_of_ne_nil hrest] at hlast
      have hne : observation.observationId ≠ oldest := by
        rintro heq
        exact (List.nodup_cons.mp hlists.nodup).1 (heq ▸ List.mem_of_getLast? hlast)
      refine ⟨hlists.evict, hlast, ?_, ObservationCache.evict_current_eq_some_iff.mpr
        ⟨hpointer, fun hand => hne hand.1⟩⟩
      rw [ObservationCache.evict_entries, Function.update_of_ne hne, hentry])
    ⟨h.lists.put observation, by simp [ObservationCache.putOrder],
      by rw [ObservationCache.put_entries, Function.update_self],
      by rw [ObservationCache.put_current, Function.update_of_ne hcontext, hpointer]⟩
  have hstore : state.cache.store observation = { kept with order := rest } := by
    rw [ObservationCache.store_eq h.lists, heq]
  have hwrong := hfaithful.context_eq context observation.observationId observation
  rw [CacheRun.next, hstore] at hwrong
  exact hcontext (hwrong hkept hentry).symm

/-- The cache does what it is for all along a run exactly if every call of the run is allowed. -/
theorem faithful_run_iff (capacity : ℤ) (calls : List (CacheCall T D)) :
    (∀ before, before <+: calls → CacheRun.Faithful (run capacity before)) ↔
      ∀ before call, before ++ [call] <+: calls → Allowed (run capacity before) call := by
  have hsnoc : ∀ before (call : CacheCall T D),
      run capacity (before ++ [call]) = (run capacity before).next call := by
    intro before call
    rw [run, List.foldl_append]
    rfl
  constructor
  · intro hfaithful before call hcalls
    cases call with
    | store observation =>
      by_contra hno
      refine (sound_run capacity before).not_faithful_next hno ?_
      rw [← hsnoc]
      exact hfaithful _ hcalls
    | _ => trivial
  · intro hallowed before hbefore
    refine (sound_run capacity before).faithful ?_
    induction before using List.reverseRecOn with
    | nil =>
      refine ⟨fun context id hid => ?_, fun context stored hlatest _ => ?_⟩
      · cases hid
      · cases hlatest
    | append_singleton before call ih =>
      rw [hsnoc]
      exact (ih ((List.prefix_append before [call]).trans hbefore)).next
        (sound_run capacity before) (hallowed before call hbefore)

/-! ## The cache of the engine -/

namespace ObservationCache

/-- The cache without times and capabilities. -/
def forget (cache : ObservationCache T D) : ComputerObservationCache T D :=
  { capacity := cache.capacity
    entriesByObservationId := fun id =>
      (cache.entriesByObservationId id).map (·.toCachedComputerObservation)
    currentObservationIdByContext := cache.currentObservationIdByContext
    order := cache.order }

theorem forget_update (entries : T → Option (StoredObservation T D)) (id : T)
    (stored : Option (StoredObservation T D)) :
    (fun other => (Function.update entries id stored other).map (·.toCachedComputerObservation)) =
      Function.update (fun other => (entries other).map (·.toCachedComputerObservation)) id
        (stored.map (·.toCachedComputerObservation)) := by
  funext other
  by_cases hid : other = id
  · subst hid
    simp
  · simp [hid]

variable (cache : ObservationCache T D)

theorem forget_evict (id : T) : (cache.evict id).forget = cache.forget.evict id := by
  rw [evict, ComputerObservationCache.evict]
  cases hid : cache.entriesByObservationId id with
  | none => simp [forget, hid]
  | some removed =>
    simp only [forget, hid, Option.map_some, forget_update, Option.map_none]
    rfl

theorem forget_trimToCapacity (order : List T) :
    (cache.trimToCapacity order).forget = cache.forget.trimTo order := by
  induction order generalizing cache with
  | nil => rfl
  | cons oldest rest ih =>
    rw [trimToCapacity, ComputerObservationCache.trimTo]
    by_cases hlong : rest.length + 1 > cache.capacity
    · have hforget : ¬ rest.length + 1 ≤ cache.forget.capacity := Nat.not_le.mpr hlong
      rw [if_pos hlong, if_neg hforget, ih, forget_evict]
    · have hforget : rest.length + 1 ≤ cache.forget.capacity := Nat.not_lt.mp hlong
      rw [if_neg hlong, if_pos hforget]
      rfl

theorem forget_store (observation : StoredObservation T D) :
    (cache.store observation).forget =
      cache.forget.store observation.toCachedComputerObservation := by
  rw [store, ComputerObservationCache.store, forget_trimToCapacity]
  congr 1
  · simp only [forget, forget_update, Option.map_some]
    rfl
  · simp [forget]

omit [DecidableEq T] in
theorem forget_current (context : ContextKey T) :
    (cache.current context).map (·.toCachedComputerObservation) =
      cache.forget.current context := by
  rw [current, ComputerObservationCache.current, Option.map_bind]
  rfl

end ObservationCache

end Cache

/-! ## An identifier of two windows -/

def observedIn (id window : String) : StoredObservation String ℤ :=
  { observationId := id
    appIdentity := "app"
    windowIdentity := window
    windowGeneration := "1"
    displayTopologyDigest := "d"
    observation :=
      { snapshotId := id
        bundleIdentifier := none
        windowTitle := none
        elements := []
        truncated := false
        perception := none }
    createdMonotonicMs := 0
    capability := ⟨.unknown, .unknown, 0, "1"⟩ }

/-- The observation of the second window is the current one of the first window too. -/
theorem not_faithful_observedIn :
    (run 4 [.store (observedIn "a" "w"), .store (observedIn "a" "v")]).cache.current
        (observedIn "a" "w").context = some (observedIn "a" "v") ∧
      ¬ CacheRun.Faithful (run 4 [.store (observedIn "a" "w"), .store (observedIn "a" "v")]) := by
  refine ⟨rfl, fun hfaithful => ?_⟩
  have hcontext := hfaithful.context_eq (observedIn "a" "w").context "a" (observedIn "a" "v")
    rfl rfl
  exact absurd (congrArg (·.windowIdentity) hcontext) (by decide)

end TargetRecovery
