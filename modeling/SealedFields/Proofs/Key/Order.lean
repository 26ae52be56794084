import SealedFields.Key.Custody
import SealedFields.Proofs.Cache.Loads

/-!
# The loads of a key store and of its cache

A key store and its cache know the same loads, whatever the custodian answers and however a load goes on.
-/

namespace SealedFields.Custody

variable {c c' : Custody} {l : KeyLoad}

/-- The cache is open and in order, and its loads are those of the key store. -/
structure Orderly (c : Custody) : Prop where
  opened : c.store.keyCache.closed = false
  tidy : c.store.keyCache.Tidy
  mirrored : (c.store.loads.map fun l => (l.id, l.owner, l.errand))
    = c.store.keyCache.loads.map fun m => (m.id, m.key, m.flight)

namespace Orderly

theorem of_same (orderly : c.Orderly) (cache_eq : c'.store.keyCache = c.store.keyCache)
    (loads_eq : c'.store.loads = c.store.loads) : c'.Orderly := by
  obtain ⟨opened, tidy, mirrored⟩ := orderly
  rw [← cache_eq] at opened tidy mirrored
  rw [← loads_eq] at mirrored
  exact ⟨opened, tidy, mirrored⟩

theorem ids (orderly : c.Orderly) : (c.store.loads.map KeyLoad.id).Nodup := by
  -- The loads of the key store have the numbers of the cache's loads.
  have same : c.store.loads.map KeyLoad.id = c.store.keyCache.loads.map Load.id := by
    have := congrArg (List.map (·.1)) orderly.mirrored
    rw [List.map_map, List.map_map] at this
    exact this
  rw [same]
  exact orderly.tidy.ids

theorem slots (orderly : c.Orderly) : (c.store.loads.map fun l => (l.owner, l.errand)).Nodup := by
  have same : (c.store.loads.map fun l => (l.owner, l.errand))
      = c.store.keyCache.loads.map fun m => (m.key, m.flight) := by
    have := congrArg (List.map (·.2)) orderly.mirrored
    rw [List.map_map, List.map_map] at this
    exact this
  rw [same]
  exact orderly.tidy.slots

theorem exists_cached (orderly : c.Orderly) (hl : l ∈ c.store.loads) :
    ∃ m ∈ c.store.keyCache.loads, m.id = l.id ∧ m.key = l.owner ∧ m.flight = l.errand := by
  have mem := List.mem_map_of_mem (f := fun l : KeyLoad => (l.id, l.owner, l.errand)) hl
  rw [orderly.mirrored] at mem
  obtain ⟨m, hm, he⟩ := List.mem_map.1 mem
  obtain ⟨id_eq, he⟩ := Prod.mk.inj he
  obtain ⟨key_eq, flight_eq⟩ := Prod.mk.inj he
  exact ⟨m, hm, id_eq, key_eq, flight_eq⟩

theorem request (orderly : c.Orderly) (errand : Errand) (o : Owner) (caller : Nat) :
    (c.request errand o caller).2.Orderly := by
  have spec := Cache.request_spec c.now o errand caller c.store.keyCache
  have tidy := spec.tidy orderly.tidy
  unfold Custody.request
  dsimp only
  generalize (c.store.keyCache.request c.now o errand caller).1 = reply at spec ⊢
  generalize (c.store.keyCache.request c.now o errand caller).2 = keyCache at spec tidy ⊢
  cases spec with
  | refused => exact orderly
  | hit => exact ⟨orderly.opened, tidy, orderly.mirrored⟩
  -- A caller who joins changes no load but by waiting for it.
  | joins =>
    refine ⟨orderly.opened, tidy, ?_⟩
    show c.store.loads.map _ = (c.store.keyCache.loads.map _).map _
    rw [orderly.mirrored, List.map_map]
    refine List.map_congr_left fun m _ => ?_
    obtain ⟨id_eq, key_eq, flight_eq⟩ := Cache.joinedBy_same _ caller m
    rw [Function.comp_apply, id_eq, key_eq, flight_eq]
  -- The new load is in both lists.
  | starts =>
    refine ⟨orderly.opened, tidy, ?_⟩
    show (c.store.loads ++ [_]).map _ = (c.store.keyCache.loads ++ [_]).map _
    rw [List.map_append, List.map_append, orderly.mirrored]
    rfl

/-- Another phase changes neither the number nor the slot of a load. -/
theorem inPhase (orderly : c.Orderly) (l : KeyLoad) (phase : Phase) (waits : List Float) :
    Orderly { c with store := { c.store with loads := c.inPhase l phase }, waits } := by
  refine ⟨orderly.opened, orderly.tidy, ?_⟩
  rw [← orderly.mirrored]
  show (c.store.loads.map _).map _ = _
  rw [List.map_map]
  refine List.map_congr_left fun m _ => ?_
  rw [Function.comp_apply]
  split <;> rfl

theorem settle (orderly : c.Orderly) (l : KeyLoad) (next : Next) : (settle l next c).2.Orderly := by
  cases next with
  | go phase => exact orderly.inPhase l phase c.waits
  | wait delay phase => exact orderly.inPhase l phase _
  | finish result =>
    -- The load that ends leaves the key store and the cache together.
    refine ⟨?_, orderly.tidy.complete c.now l.id _, ?_⟩
    · exact (Cache.closed_complete c.now l.id _ _).trans orderly.opened
    · show (c.store.loads.filter _).map _ = (c.store.keyCache.complete c.now l.id _).2.loads.map _
      have ended (p : Nat × Owner × Errand → Bool) := congrArg (List.filter p) orderly.mirrored
      have ended := ended fun slot => decide (slot.1 ≠ l.id)
      rw [List.filter_map, List.filter_map] at ended
      rw [Cache.loads_complete]
      exact ended

end Orderly

end SealedFields.Custody
