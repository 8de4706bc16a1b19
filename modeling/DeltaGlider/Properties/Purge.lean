import DeltaGlider.Service.Rehydrate
import DeltaGlider.Properties.RoundTrip
import Mathlib.Algebra.BigOperators.Group.List

/-! # What `purge_temp_files` deletes -/

namespace DeltaGlider

namespace DeltaService

variable (svc : DeltaService) {E : Engine}

theorem mem_expired_listing_iff {w : World} {bucket : String} {k : ObjectKey} {o : StoredObject}
    (hk : w.store.lookup k = some o) :
    (k.bucket = bucket ∧ k.key ∈ ((listObjects w.store bucket ".deltaglider/tmp/").filter
        fun obj => svc.expiredAt w.clock obj.metadata).map (·.key)) ↔
      svc.purgeable w.clock bucket k o = true := by
  simp only [purgeable, Bool.and_eq_true, decide_eq_true_iff, List.mem_map, List.mem_filter,
    mem_listObjects_iff]
  constructor
  · rintro ⟨rfl, _, ⟨⟨k', o', hk', hb, hs, rfl⟩, hx⟩, hkey⟩
    obtain rfl : k' = k := by cases k; cases k'; simp_all [StoredObject.head]
    obtain rfl : o' = o := Option.some_inj.1 (hk'.symm.trans hk)
    exact ⟨⟨rfl, hs⟩, hx⟩
  · rintro ⟨⟨hb, hs⟩, hx⟩
    exact ⟨hb, _, ⟨⟨k, o, hk, hb, hs, rfl⟩, hx⟩, rfl⟩

theorem expired_listing_perm (w : World) (bucket : String) :
    ((listObjects w.store bucket ".deltaglider/tmp/").filter
        fun obj => svc.expiredAt w.clock obj.metadata).Perm
      ((w.store.entries.filter fun e => svc.purgeable w.clock bucket e.1 e.2).map
        fun e => e.2.head e.1) := by
  rw [listObjects]
  refine ((List.perm_insertionSort _ _).filter _).trans ?_
  rw [List.filter_map, List.filter_filter]
  refine .of_eq (congrArg _ (List.filter_congr fun e _ => ?_))
  simp only [Function.comp, StoredObject.head_metadata, purgeable, Bool.decide_and,
    Bool.decide_eq_true]
  rw [Bool.and_comm]

theorem lookup_purged (w : World) (bucket : String) (k : ObjectKey) :
    (((listObjects w.store bucket ".deltaglider/tmp/").filter
        fun obj => svc.expiredAt w.clock obj.metadata).foldl
      (fun s obj => s.erase ⟨bucket, obj.key⟩) w.store).lookup k =
      (w.store.lookup k).filter fun o => !svc.purgeable w.clock bucket k o := by
  rw [lookup_foldl_erase_heads]
  rcases hk : w.store.lookup k with _ | o
  · simp
  · rw [Option.filter_some]
    by_cases hp : svc.purgeable w.clock bucket k o = true
    · rw [if_pos ((svc.mem_expired_listing_iff hk).2 hp)]; simp [hp]
    · rw [if_neg (mt (svc.mem_expired_listing_iff hk).1 hp)]; simp [hp]

/-- Purge deletes exactly the expired temp objects. -/
theorem purgeTempFiles_deletes_exactly_expired (bucket : String) (w : World) :
    let deleted := w.store.entries.filter fun e => svc.purgeable w.clock bucket e.1 e.2
    ∃ r store', run E (svc.purgeTempFiles bucket) w = (.ok r, { w with store := store' }) ∧
      (∀ k, store'.lookup k = (w.store.lookup k).filter fun o => !svc.purgeable w.clock bucket k o) ∧
      r.deletedCount = deleted.length ∧ r.expiredCount = deleted.length ∧
      r.totalSizeFreed = (deleted.map fun e => e.2.data.length).sum ∧
      r.errorCount = 0 ∧ r.errors = [] ∧
      ∀ key s w0 w1 tk, run E (svc.rehydrateForDownload bucket key s) w0 = (.ok (some tk), w1) →
        svc.isoformat (w0.clock + s) ≠ "" →
        svc.fromisoformat (replaceZ (svc.isoformat (w0.clock + s))) = some (w0.clock + s) →
        w.store.lookup ⟨bucket, tk⟩ = w1.store.lookup ⟨bucket, tk⟩ →
        (store'.lookup ⟨bucket, tk⟩ = none ↔ w0.clock + s ≤ w.clock) := by
  have hperm := svc.expired_listing_perm w bucket
  refine ⟨_, _, run_purgeTempFiles svc bucket w, svc.lookup_purged w bucket, ?_, ?_, ?_, rfl, rfl,
    fun key s w0 w1 tk hrh hne hread hsame => ?_⟩
  · simpa using hperm.length_eq
  · simpa using hperm.length_eq
  · simpa [Function.comp, StoredObject.head] using (hperm.map (·.size)).sum_eq
  · -- the temp object rehydration wrote, still in the store, expires at `t0 + s`
    obtain ⟨hs, o, ho, hexp⟩ := svc.run_rehydrateForDownload_some hrh
    rw [svc.lookup_purged, hsame, ho, Option.filter_some]
    simp [purgeable, hs, svc.expiredAt_iff_of_isoformat hexp hne hread]

def rehydrateWorld : World :=
  { World.empty with
    store := (∅ : Store).insert ⟨"b", "f.bin"⟩
      ⟨[1, 2, 3], [("dg-file-sha256", "sha-3"), ("compression", "none")]⟩ }

theorem rehydrated_temp_purged_from_expiry :
    let w1 := (run sampleEngine (sample.rehydrateForDownload "b" "f.bin" 3600) rehydrateWorld).2
    (run sampleEngine (sample.purgeTempFiles "b") { w1 with clock := 3600 }).2.store.lookup
        ⟨"b", ".deltaglider/tmp/0_f.bin"⟩ = none ∧
      (run sampleEngine (sample.purgeTempFiles "b") { w1 with clock := 3599 }).2.store.lookup
        ⟨"b", ".deltaglider/tmp/0_f.bin"⟩ ≠ none := by
  intro w1
  have hrh : run sampleEngine (sample.rehydrateForDownload "b" "f.bin" 3600) rehydrateWorld =
      (.ok (some ".deltaglider/tmp/0_f.bin"), w1) := rfl
  have hne : sample.isoformat (rehydrateWorld.clock + 3600) ≠ "" := by decide
  have hread : sample.fromisoformat (replaceZ (sample.isoformat (rehydrateWorld.clock + 3600))) =
      some (rehydrateWorld.clock + 3600) := by
    show (replaceZ (toString ((3600 : Nat) : Int))).toInt? = some ((3600 : Nat) : Int)
    rw [replaceZ_of_not_mem (not_mem_toString_ofNat _), toInt?_toString_ofNat]
    rfl
  obtain ⟨_, s1, h1, -, -, -, -, -, -, hc1⟩ :=
    sample.purgeTempFiles_deletes_exactly_expired (E := sampleEngine) "b" { w1 with clock := 3600 }
  obtain ⟨_, s2, h2, -, -, -, -, -, -, hc2⟩ :=
    sample.purgeTempFiles_deletes_exactly_expired (E := sampleEngine) "b" { w1 with clock := 3599 }
  rw [h1, h2]
  exact ⟨(hc1 _ _ _ _ _ hrh hne hread rfl).2 (by decide),
    fun h => absurd ((hc2 _ _ _ _ _ hrh hne hread rfl).1 h) (by decide)⟩

end DeltaService

end DeltaGlider
