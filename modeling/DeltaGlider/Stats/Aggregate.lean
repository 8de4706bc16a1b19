import DeltaGlider.Models
import Mathlib.Data.List.AList
import Mathlib.Algebra.BigOperators.Group.List
import Mathlib.Algebra.Order.Ring.Int
import Mathlib.Algebra.Order.Ring.Nat

/-! # Bucket statistics (`client_operations/stats.py`)

`_build_object_info_list` and `_calculate_bucket_statistics`. -/

namespace DeltaGlider

namespace Stats

structure RawObject where
  key : String
  size : Nat
  deriving DecidableEq, Repr

abbrev MetadataMap := List (String × Metadata)

structure ObjectInfo where
  key : String
  size : Nat
  originalSize : Int
  isDelta : Bool
  deriving DecidableEq, Repr

structure BucketStats where
  bucket : String
  objectCount : Nat
  totalSize : Int
  compressedSize : Nat
  spaceSaved : Int
  averageCompressionRatio : ℚ
  deltaObjects : Nat
  directObjects : Nat
  deriving DecidableEq, Repr

def originalSizeOf (metadata : Metadata) (size : Nat) : Int :=
  match lookup metadata "file_size" with
  | some v => (pyInt v).getD size
  | none => size

def buildObjectInfo (metadataMap : MetadataMap) (objDict : RawObject) : ObjectInfo :=
  let isDelta := endswith objDict.key ".delta"
  let metadata := (metadataMap.lookup objDict.key).getD []
  { key := objDict.key, size := objDict.size, isDelta,
    originalSize :=
      if isDelta ∧ metadata ≠ [] then originalSizeOf metadata objDict.size else objDict.size }

def buildObjectInfoList (rawObjects : List RawObject) (metadataMap : MetadataMap) :
    List ObjectInfo :=
  rawObjects.map (buildObjectInfo metadataMap)

/-- The dictionary slot of a reference key:
`key.rsplit("/reference.bin", 1)[0] if "/" in key else ""`. -/
def referenceSlot (key : String) : String :=
  if hasSlash key then rsplitOnHead key "/reference.bin" else ""

structure FirstPass where
  deltaCount : Nat := 0
  directCount : Nat := 0
  referenceFiles : AList (fun _ : String => Nat) := ∅

def firstPassStep (s : FirstPass) (obj : ObjectInfo) : FirstPass :=
  if IsReferenceKey obj.key then
    { s with referenceFiles := s.referenceFiles.insert (referenceSlot obj.key) obj.size }
  else if obj.isDelta then { s with deltaCount := s.deltaCount + 1 }
  else { s with directCount := s.directCount + 1 }

structure Totals where
  totalOriginalSize : Int := 0
  totalCompressedSize : Nat := 0

def secondPassStep (t : Totals) (obj : ObjectInfo) : Totals :=
  if IsReferenceKey obj.key then t
  else if obj.isDelta then
    { totalOriginalSize := t.totalOriginalSize +
        if obj.originalSize ≠ 0 ∧ obj.originalSize ≠ obj.size then obj.originalSize else obj.size
      totalCompressedSize := t.totalCompressedSize + obj.size }
  else
    { totalOriginalSize := t.totalOriginalSize + obj.size
      totalCompressedSize := t.totalCompressedSize + obj.size }

def totalReferenceSize (referenceFiles : AList (fun _ : String => Nat)) : Nat :=
  (referenceFiles.entries.map (·.2)).sum

def calculateBucketStatistics (allObjects : List ObjectInfo) (bucket : String) : BucketStats :=
  let counts := allObjects.foldl firstPassStep {}
  let totals := allObjects.foldl secondPassStep {}
  let totalReference := totalReferenceSize counts.referenceFiles
  let totalCompressedSize :=
    if counts.deltaCount > 0 ∧ totalReference > 0 then totals.totalCompressedSize + totalReference
    else totals.totalCompressedSize
  let spaceSaved := totals.totalOriginalSize - totalCompressedSize
  { bucket
    objectCount := counts.deltaCount + counts.directCount
    totalSize := totals.totalOriginalSize
    compressedSize := totalCompressedSize
    spaceSaved
    averageCompressionRatio :=
      if totals.totalOriginalSize > 0 then (spaceSaved : ℚ) / totals.totalOriginalSize else 0
    deltaObjects := counts.deltaCount
    directObjects := counts.directCount }

/-! ## The passes in closed form -/

def IsDeltaEntry (o : RawObject) : Prop := ¬IsReferenceKey o.key ∧ endswith o.key ".delta" = true

def IsDirectEntry (o : RawObject) : Prop := ¬IsReferenceKey o.key ∧ endswith o.key ".delta" = false

instance : DecidablePred IsDeltaEntry := fun _ => inferInstanceAs (Decidable (_ ∧ _))
instance : DecidablePred IsDirectEntry := fun _ => inferInstanceAs (Decidable (_ ∧ _))

/-- The `file_size` a delta's fetched metadata records, read under the bare name as
`int(...)`, when the metadata is non-empty. -/
def recordedFileSize (metadataMap : MetadataMap) (o : RawObject) : Option Int :=
  let metadata := (metadataMap.lookup o.key).getD []
  if endswith o.key ".delta" ∧ metadata ≠ [] then (lookup metadata "file_size").bind pyInt
  else none

/-- What a non-reference object adds to `total_size`: the recorded `file_size` when it is
non-zero, the listed size otherwise. -/
def countedSize (metadataMap : MetadataMap) (o : RawObject) : Int :=
  match recordedFileSize metadataMap o with
  | some n => if n ≠ 0 then n else o.size
  | none => o.size

@[simp] theorem buildObjectInfo_key (mm : MetadataMap) (o : RawObject) :
    (buildObjectInfo mm o).key = o.key := rfl

@[simp] theorem buildObjectInfo_size (mm : MetadataMap) (o : RawObject) :
    (buildObjectInfo mm o).size = o.size := rfl

@[simp] theorem buildObjectInfo_isDelta (mm : MetadataMap) (o : RawObject) :
    (buildObjectInfo mm o).isDelta = endswith o.key ".delta" := rfl

theorem referenceSlot_of_isReferenceKey {k : String} (h : IsReferenceKey k) :
    (k = "reference.bin" ∧ referenceSlot k = "") ∨
      ∃ p, k = p ++ "/reference.bin" ∧ referenceSlot k = p := by
  rcases h with rfl | h
  · exact .inl ⟨rfl, by decide⟩
  · obtain ⟨u, hu⟩ := endswith_iff.1 h
    have hk : k = ⟨u⟩ ++ "/reference.bin" := String.ext (by simp [← hu])
    have hs : hasSlash k = true :=
      hasSlash_iff.2 (hk ▸ List.mem_append_right _ (by decide))
    exact .inr ⟨⟨u⟩, hk, by rw [referenceSlot, if_pos hs, hk, rsplitOnHead_append _ _ (by decide)]⟩

/-- Two reference keys share a slot only when they are equal, or are `reference.bin` and
`/reference.bin`. -/
theorem referenceSlot_inj {k₁ k₂ : String} (h₁ : IsReferenceKey k₁) (h₂ : IsReferenceKey k₂)
    (he : referenceSlot k₁ = referenceSlot k₂) :
    k₁ = k₂ ∨ (k₁ = "reference.bin" ∧ k₂ = "/reference.bin") ∨
      (k₁ = "/reference.bin" ∧ k₂ = "reference.bin") := by
  rcases referenceSlot_of_isReferenceKey h₁ with ⟨rfl, e₁⟩ | ⟨p, rfl, e₁⟩ <;>
    rcases referenceSlot_of_isReferenceKey h₂ with ⟨rfl, e₂⟩ | ⟨q, rfl, e₂⟩
  · exact .inl rfl
  · obtain rfl : q = "" := by rw [← e₂, ← he, e₁]
    exact .inr (.inl ⟨rfl, rfl⟩)
  · obtain rfl : p = "" := by rw [← e₁, he, e₂]
    exact .inr (.inr ⟨rfl, rfl⟩)
  · obtain rfl : p = q := by rw [← e₁, he, e₂]
    exact .inl rfl

theorem nodup_referenceSlots {raw : List RawObject} (hkeys : (raw.map (·.key)).Nodup)
    (hroot : ¬("reference.bin" ∈ raw.map (·.key) ∧ "/reference.bin" ∈ raw.map (·.key))) :
    ((raw.filter (decide <| IsReferenceKey ·.key)).map (referenceSlot ·.key)).Nodup := by
  refine ((hkeys.of_map _).filter _).map_on fun x hx y hy he => ?_
  rw [List.mem_filter, decide_eq_true_iff] at hx hy
  have hxk := List.mem_map_of_mem (·.key) hx.1
  have hyk := List.mem_map_of_mem (·.key) hy.1
  refine List.inj_on_of_nodup_map hkeys hx.1 hy.1 ?_
  rcases referenceSlot_inj hx.2 hy.2 he with e | ⟨e₁, e₂⟩ | ⟨e₁, e₂⟩
  · exact e
  · exact absurd ⟨e₁ ▸ hxk, e₂ ▸ hyk⟩ hroot
  · exact absurd ⟨e₂ ▸ hyk, e₁ ▸ hxk⟩ hroot

section Passes

variable (mm : MetadataMap)

def insertReferences (rf : AList (fun _ : String => Nat)) (l : List RawObject) :
    AList (fun _ : String => Nat) :=
  l.foldl (fun rf o => rf.insert (referenceSlot o.key) o.size) rf

theorem foldl_firstPassStep :
    ∀ (l : List RawObject) (s : FirstPass),
      (buildObjectInfoList l mm).foldl firstPassStep s =
        { deltaCount := s.deltaCount + l.countP (decide <| IsDeltaEntry ·)
          directCount := s.directCount + l.countP (decide <| IsDirectEntry ·)
          referenceFiles :=
            insertReferences s.referenceFiles (l.filter (decide <| IsReferenceKey ·.key)) }
  | [], _ => rfl
  | o :: l, s => by
    rw [buildObjectInfoList, List.map_cons, List.foldl_cons, ← buildObjectInfoList,
      foldl_firstPassStep l]
    unfold firstPassStep IsDeltaEntry IsDirectEntry
    by_cases hr : IsReferenceKey o.key
    · simp [hr, insertReferences]
    · cases hd : endswith o.key ".delta" <;> simp [hr, hd] <;> omega

theorem secondPassStep_of_not_reference (t : Totals) {o : RawObject} (hr : ¬IsReferenceKey o.key) :
    secondPassStep t (buildObjectInfo mm o) =
      { totalOriginalSize := t.totalOriginalSize + countedSize mm o
        totalCompressedSize := t.totalCompressedSize + o.size } := by
  unfold secondPassStep countedSize recordedFileSize buildObjectInfo originalSizeOf
  simp only [hr, if_false]
  generalize (mm.lookup o.key).getD [] = md
  by_cases hc : endswith o.key ".delta" = true ∧ md ≠ []
  · rcases hl : lookup md "file_size" with _ | v
    · simp [hc, hl]
    · rcases hp : pyInt v with _ | n
      · simp [hc, hl, hp]
      · by_cases h0 : n = 0 <;> by_cases hs : n = o.size <;> simp [hc, hl, hp, h0, hs]
  · cases hd : endswith o.key ".delta" <;> simp_all

theorem foldl_secondPassStep :
    ∀ (l : List RawObject) (t : Totals),
      (buildObjectInfoList l mm).foldl secondPassStep t =
        { totalOriginalSize := t.totalOriginalSize +
            ((l.filter (decide <| ¬IsReferenceKey ·.key)).map (countedSize mm)).sum
          totalCompressedSize := t.totalCompressedSize +
            ((l.filter (decide <| ¬IsReferenceKey ·.key)).map (·.size)).sum }
  | [], ⟨_, _⟩ => by simp [buildObjectInfoList]
  | o :: l, t => by
    rw [buildObjectInfoList, List.map_cons, List.foldl_cons, ← buildObjectInfoList,
      foldl_secondPassStep l]
    by_cases hr : IsReferenceKey o.key
    · simp [secondPassStep, hr]
    · simp [secondPassStep_of_not_reference mm t hr, hr, Int.add_assoc, Nat.add_assoc]

theorem totalReferenceSize_insertReferences :
    ∀ (l : List RawObject) (rf : AList (fun _ : String => Nat)),
      (l.map (referenceSlot ·.key)).Nodup → (∀ o ∈ l, referenceSlot o.key ∉ rf) →
      totalReferenceSize (insertReferences rf l) = totalReferenceSize rf + (l.map (·.size)).sum
  | [], _, _, _ => rfl
  | o :: l, rf, hnd, hrf => by
    rw [List.map_cons, List.nodup_cons] at hnd
    have hfresh : ∀ o' ∈ l, referenceSlot o'.key ∉ rf.insert (referenceSlot o.key) o.size := by
      intro o' ho' hmem
      rcases (AList.mem_insert _).1 hmem with h | h
      · exact hnd.1 (h ▸ List.mem_map_of_mem _ ho')
      · exact hrf o' (List.mem_cons_of_mem _ ho') h
    rw [insertReferences, List.foldl_cons, ← insertReferences,
      totalReferenceSize_insertReferences l _ hnd.2 hfresh, totalReferenceSize, totalReferenceSize,
      AList.insert_entries_of_neg (hrf o (List.mem_cons_self _ _))]
    simp [Nat.add_assoc, Nat.add_left_comm]

theorem calculateBucketStatistics_build (raw : List RawObject) (bucket : String) :
    calculateBucketStatistics (buildObjectInfoList raw mm) bucket =
      let deltas := raw.countP (decide <| IsDeltaEntry ·)
      let nonRef := raw.filter (decide <| ¬IsReferenceKey ·.key)
      let total := (nonRef.map (countedSize mm)).sum
      let refTotal :=
        totalReferenceSize (insertReferences ∅ (raw.filter (decide <| IsReferenceKey ·.key)))
      let compressed :=
        if deltas > 0 ∧ refTotal > 0 then (nonRef.map (·.size)).sum + refTotal
        else (nonRef.map (·.size)).sum
      { bucket
        objectCount := deltas + raw.countP (decide <| IsDirectEntry ·)
        totalSize := total
        compressedSize := compressed
        spaceSaved := total - compressed
        averageCompressionRatio :=
          if total > 0 then ((total - compressed : Int) : ℚ) / total else 0
        deltaObjects := deltas
        directObjects := raw.countP (decide <| IsDirectEntry ·) } := by
  simp only [calculateBucketStatistics, foldl_firstPassStep, foldl_secondPassStep, Nat.zero_add,
    Int.zero_add]

end Passes

end Stats

end DeltaGlider
