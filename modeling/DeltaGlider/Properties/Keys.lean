import DeltaGlider.Properties.RoundTrip
import DeltaGlider.Service.Delete
import DeltaGlider.Stats.Aggregate

/-! # Key assignment of `put`

Which names share a key, and how each reader recovers a deltaspace prefix from a key. -/

namespace DeltaGlider

namespace DeltaService

variable (svc : DeltaService) {E : Engine}

theorem putKey_eq (ds : DeltaSpace) (n : String) :
    svc.putKey ds n = ds.directKey (if svc.shouldUseDelta n then n ++ ".delta" else n) := by
  unfold putKey; split <;> simp [DeltaSpace.deltaKey_eq]

theorem append_delta_ne_reference (n : String) : n ++ ".delta" ≠ "reference.bin" := fun h =>
  absurd (h ▸ endswith_append n ".delta") (by decide)

theorem append_delta_inj {a b : String} : a ++ ".delta" = b ++ ".delta" ↔ a = b := by
  simp [String.ext_iff]

theorem putKey_assignment (ds : DeltaSpace) :
    (∀ n₁ n₂, n₁ ≠ n₂ → (svc.putKey ds n₁ = svc.putKey ds n₂ ↔
      (svc.shouldUseDelta n₁ = true ∧ svc.shouldUseDelta n₂ = false ∧ n₂ = n₁ ++ ".delta") ∨
      (svc.shouldUseDelta n₂ = true ∧ svc.shouldUseDelta n₁ = false ∧ n₁ = n₂ ++ ".delta"))) ∧
    (∀ n, svc.putKey ds n = ds.referenceKey ↔
      svc.shouldUseDelta n = false ∧ n = "reference.bin") ∧
    (∀ n, svc.shouldUseDelta n = false →
      endswith (svc.putKey ds n) ".delta" = endswith n ".delta") ∧
    (∀ f o w r w' k, Exec E (svc.put f ds o) w r w' → w'.store.lookup k ≠ w.store.lookup k →
      k = ⟨ds.bucket, svc.putKey ds (originalNameOf f o)⟩ ∨
        (k = ⟨ds.bucket, ds.referenceKey⟩ ∧ w.store.lookup k = none)) := by
  refine ⟨fun n₁ n₂ hne => ?_, fun n => ?_, fun n hn => ?_, fun f o w r w' k hx hk => ?_⟩
  · rw [putKey_eq, putKey_eq, DeltaSpace.directKey_inj]
    cases h₁ : svc.shouldUseDelta n₁ <;> cases h₂ : svc.shouldUseDelta n₂ <;>
      simp [append_delta_inj, hne, eq_comm]
  · rw [putKey_eq, DeltaSpace.directKey_eq_referenceKey]
    cases svc.shouldUseDelta n <;> simp [append_delta_ne_reference]
  · rw [putKey_eq, hn, if_neg (by simp), DeltaSpace.endswith_directKey _ _ (by decide)]
  · exact ((put_store svc f ds o hx k).resolve_left hk)

theorem putKey_collision_sample :
    "a.zip" ≠ "a.zip.delta" ∧
    sample.putKey ⟨"b", "rel"⟩ "a.zip" = sample.putKey ⟨"b", "rel"⟩ "a.zip.delta" ∧
    sample.putKey ⟨"b", "rel"⟩ "reference.bin" = (⟨"b", "rel"⟩ : DeltaSpace).referenceKey := by
  decide

section PrefixRecovery

variable {p : String}

theorem referenceKey_of_ne (b : String) (hp : p ≠ "") :
    (⟨b, p⟩ : DeltaSpace).referenceKey = p ++ "/" ++ "reference.bin" := by
  rw [DeltaSpace.referenceKey, if_pos hp, String.append_assoc]; rfl

theorem refKeyPrefix_referenceKey (ds : DeltaSpace) : refKeyPrefix ds.referenceKey = ds.keyPrefix := by
  obtain ⟨b, p⟩ := ds
  by_cases hp : p = ""
  · subst hp; exact (by decide : refKeyPrefix "reference.bin" = "")
  · rw [DeltaSpace.referenceKey, if_pos hp, refKeyPrefix, if_pos (endswith_append _ _)]
    exact String.ext (by simp [dropRight])

theorem referenceSlot_referenceKey (ds : DeltaSpace) :
    Stats.referenceSlot ds.referenceKey = ds.keyPrefix := by
  obtain ⟨b, p⟩ := ds
  by_cases hp : p = ""
  · subst hp; exact (by decide : Stats.referenceSlot "reference.bin" = "")
  · rw [referenceKey_of_ne b hp, Stats.referenceSlot, if_pos (hasSlash_append_slash _ _),
      String.append_assoc]
    exact rsplitOnHead_append p "/reference.bin" (by decide)

theorem rsplitHead_referenceKey (ds : DeltaSpace) :
    (if hasSlash ds.referenceKey then rsplitHead ds.referenceKey else "") = ds.keyPrefix := by
  obtain ⟨b, p⟩ := ds
  by_cases hp : p = ""
  · subst hp
    exact (by decide : (if hasSlash "reference.bin" then rsplitHead "reference.bin" else "") = "")
  · rw [referenceKey_of_ne b hp, if_pos (hasSlash_append_slash _ _),
      rsplitHead_append _ _ (by decide)]

/-- Every derivation of a deltaspace prefix from its reference key gives the prefix back, and
`_delete_delta` finds a non-root deltaspace and its reference from a delta key. -/
theorem referenceKey_prefix_recovery (ds : DeltaSpace) :
    refPrefix ds.referenceKey = ds.keyPrefix ∧
    (if hasSlash ds.referenceKey then rsplitHead ds.referenceKey else "") = ds.keyPrefix ∧
    refKeyPrefix ds.referenceKey = ds.keyPrefix ∧
    Stats.referenceSlot ds.referenceKey = ds.keyPrefix ∧
    (ds.keyPrefix ≠ "" → ∀ n, '/' ∉ n.data →
      hasSlash (ds.deltaKey n) = true ∧ parentKey (ds.deltaKey n) = ds.keyPrefix ∧
        parentKey (ds.deltaKey n) ++ "/reference.bin" = ds.referenceKey) := by
  refine ⟨refPrefix_referenceKey ds, rsplitHead_referenceKey ds, refKeyPrefix_referenceKey ds,
    referenceSlot_referenceKey ds, fun hp n hn => ?_⟩
  have hd : '/' ∉ (n ++ ".delta").data := by simpa using hn
  have hk : ds.deltaKey n = ds.keyPrefix ++ "/" ++ (n ++ ".delta") := by
    rw [DeltaSpace.deltaKey, if_pos hp, String.append_assoc _ n]
  have hs : hasSlash (ds.deltaKey n) = true := hk ▸ hasSlash_append_slash _ _
  exact ⟨hs, hk ▸ parentKey_append _ _ hd, ds.parentKey_deltaKey hn hs⟩

end PrefixRecovery

end DeltaService

end DeltaGlider
