import DeltaGlider.Text
import Mathlib.Data.Rat.Defs

/-! # Keys, metadata and results

`models.py` is not among the sources: the records and metadata are modelled from the
specification, written in the `dg-` namespace. -/

namespace DeltaGlider

abbrev Bytes := List UInt8

inductive Error where
  | notFound (msg : String)
  | integrityMismatch (msg : String)
  | diffEncode (msg : String)
  | diffDecode (msg : String)
  | value (msg : String)
  | zeroDivision (msg : String)
  | storage (msg : String)
  | cache (msg : String)
  | os (msg : String)
  | runtime (msg : String)
  deriving DecidableEq, Repr

def Error.message : Error → String
  | .notFound m | .integrityMismatch m | .diffEncode m | .diffDecode m | .value m
  | .zeroDivision m | .storage m | .cache m | .os m | .runtime m => m

structure ObjectKey where
  bucket : String
  key : String
  deriving DecidableEq, Repr

structure DeltaSpace where
  bucket : String
  keyPrefix : String
  deriving DecidableEq, Repr

def DeltaSpace.referenceKey (ds : DeltaSpace) : String :=
  if ds.keyPrefix ≠ "" then ds.keyPrefix ++ "/reference.bin" else "reference.bin"

def DeltaSpace.deltaKey (ds : DeltaSpace) (originalName : String) : String :=
  if ds.keyPrefix ≠ "" then ds.keyPrefix ++ "/" ++ originalName ++ ".delta"
  else originalName ++ ".delta"

def DeltaSpace.directKey (ds : DeltaSpace) (originalName : String) : String :=
  if ds.keyPrefix ≠ "" then ds.keyPrefix ++ "/" ++ originalName else originalName

theorem DeltaSpace.deltaKey_eq (ds : DeltaSpace) (n : String) :
    ds.deltaKey n = ds.directKey (n ++ ".delta") := by
  unfold deltaKey directKey; split <;> simp [String.append_assoc]

theorem DeltaSpace.directKey_inj (ds : DeltaSpace) {n m : String} :
    ds.directKey n = ds.directKey m ↔ n = m := by
  unfold directKey; split
  · simp [String.ext_iff]
  · rfl

theorem DeltaSpace.directKey_eq_referenceKey (ds : DeltaSpace) (n : String) :
    ds.directKey n = ds.referenceKey ↔ n = "reference.bin" := by
  unfold directKey referenceKey; split
  · rw [show ds.keyPrefix ++ "/reference.bin" = ds.keyPrefix ++ "/" ++ "reference.bin" by
      rw [String.append_assoc]; rfl]
    simp [String.ext_iff]
  · rfl

theorem DeltaSpace.endswith_directKey (ds : DeltaSpace) (n : String) {t : String}
    (ht : '/' ∉ t.data) : endswith (ds.directKey n) t = endswith n t := by
  unfold directKey; split
  · exact endswith_append_slash ht
  · rfl

theorem DeltaSpace.startswith_directKey (ds : DeltaSpace) (n : String) {np : String}
    (hp : np = "" ∨ endswith np "/" = true) (h : startswith ds.referenceKey np = true) :
    startswith (ds.directKey n) np = true := by
  obtain ⟨b, ⟨P⟩⟩ := ds
  rcases hp with rfl | hp
  · exact startswith_iff.2 List.nil_prefix
  obtain ⟨v, hv⟩ := endswith_iff.1 hp
  rw [startswith_iff, ← hv] at h ⊢
  unfold referenceKey at h
  unfold directKey
  split_ifs at h ⊢
  · have h' : v ++ ['/'] <+: P ++ ['/'] ++ "reference.bin".data := by
      rw [List.append_assoc]; exact h
    exact (slash_prefix_of_last_slash (by decide) h').trans (List.prefix_append _ _)
  · exact absurd (h.subset (List.mem_append_right v (List.mem_singleton_self '/'))) (by decide)

/-- A key named `reference.bin`: the reference of the deltaspace it lies in. -/
def IsReferenceKey (k : String) : Prop := k = "reference.bin" ∨ endswith k "/reference.bin" = true

instance : DecidablePred IsReferenceKey := fun _ => inferInstanceAs (Decidable (_ ∨ _))

theorem DeltaSpace.isReferenceKey_referenceKey (ds : DeltaSpace) : IsReferenceKey ds.referenceKey := by
  unfold referenceKey; split
  · exact .inr (endswith_append _ _)
  · exact .inl rfl

theorem not_isReferenceKey_of_delta {k : String} (h : endswith k ".delta" = true) :
    ¬IsReferenceKey k := by
  rintro (rfl | h')
  · exact absurd h (by decide)
  · exact absurd h' (by simp [endswith_delta_reference h])

theorem DeltaSpace.not_isReferenceKey_deltaKey (ds : DeltaSpace) (n : String) :
    ¬IsReferenceKey (ds.deltaKey n) := by
  refine not_isReferenceKey_of_delta ?_
  rw [deltaKey_eq, endswith_directKey _ _ (by decide)]
  exact endswith_append _ _

theorem DeltaSpace.referenceKey_ne_deltaKey (ds : DeltaSpace) (n : String) :
    ds.referenceKey ≠ ds.deltaKey n :=
  fun h => ds.not_isReferenceKey_deltaKey n (h ▸ ds.isReferenceKey_referenceKey)

theorem DeltaSpace.reference_ne_delta (ds : DeltaSpace) (n : String) :
    (⟨ds.bucket, ds.referenceKey⟩ : ObjectKey) ≠ ⟨ds.bucket, ds.deltaKey n⟩ :=
  fun e => ds.referenceKey_ne_deltaKey n (congrArg ObjectKey.key e)

theorem DeltaSpace.deltaKey_inj (ds : DeltaSpace) {n m : String} :
    ds.deltaKey n = ds.deltaKey m ↔ n = m := by
  rw [deltaKey_eq, deltaKey_eq, directKey_inj]; simp [String.ext_iff]

theorem DeltaSpace.parentKey_deltaKey (ds : DeltaSpace) {n : String} (hn : '/' ∉ n.data)
    (hs : hasSlash (ds.deltaKey n) = true) :
    parentKey (ds.deltaKey n) ++ "/reference.bin" = ds.referenceKey := by
  have hd : '/' ∉ (n ++ ".delta").data := by simpa using hn
  unfold deltaKey referenceKey at *
  by_cases hp : ds.keyPrefix ≠ ""
  · rw [if_pos hp, if_pos hp, String.append_assoc, parentKey_append _ _ hd]
  · rw [if_neg hp] at hs
    exact absurd (hasSlash_iff.1 hs) hd

theorem not_isReferenceKey_underscore {x n : String} (hn : '/' ∉ n.data) :
    ¬IsReferenceKey (x ++ "_" ++ n) := by
  rintro (h | h)
  · have h' := congrArg String.data h
    simp only [String.data_append] at h'
    exact absurd (h' ▸ List.mem_append_left n.data (List.mem_append_right x.data
      (List.mem_singleton_self '_'))) (by decide)
  · exact absurd h (by simp [endswith_underscore_reference hn])

abbrev Metadata := List (String × String)

def lookup (md : Metadata) (k : String) : Option String := List.lookup k md

def dgKey (name : String) : String :=
  ⟨"dg-".data ++ name.data.map (fun c => if c = '_' then '-' else c)⟩

/-- Modelled from the spec: `resolve_metadata` reads a logical name under the `dg-` namespace,
then under the bare name. -/
def resolveMetadata (md : Metadata) (name : String) : Option String :=
  match lookup md (dgKey name) with
  | some v => some v
  | none => lookup md name

structure ReferenceMeta where
  tool : String
  sourceName : String
  fileSha256 : String
  createdAt : String
  deriving DecidableEq, Repr

def ReferenceMeta.toDict (m : ReferenceMeta) : Metadata :=
  [("dg-tool", m.tool), ("dg-source-name", m.sourceName), ("dg-file-sha256", m.fileSha256),
    ("dg-created-at", m.createdAt)]

structure DeltaMeta where
  tool : String
  originalName : String
  fileSha256 : String
  fileSize : Int
  createdAt : String
  refKey : String
  refSha256 : String
  deltaSize : Int
  deltaCmd : String
  note : Option String
  deriving DecidableEq, Repr

def DeltaMeta.toDict (m : DeltaMeta) : Metadata :=
  [("dg-tool", m.tool), ("dg-original-name", m.originalName), ("dg-file-sha256", m.fileSha256),
    ("dg-file-size", toString m.fileSize), ("dg-created-at", m.createdAt),
    ("dg-ref-key", m.refKey), ("dg-ref-sha256", m.refSha256),
    ("dg-delta-size", toString m.deltaSize), ("dg-delta-cmd", m.deltaCmd)] ++
  match m.note with
  | some n => [("dg-note", n)]
  | none => []

def requireField (md : Metadata) (name : String) : Except Error String :=
  match resolveMetadata md name with
  | some v => .ok v
  | none => .error (.value ("missing metadata field " ++ name))

/-- `int(v)`, which raises `ValueError` on text that is not an integer. -/
def intOf (v : String) : Except Error Int :=
  match pyInt v with
  | some n => .ok n
  | none => .error (.value ("invalid literal for int() with base 10: '" ++ v ++ "'"))

def requireSize (md : Metadata) (name : String) : Except Error Int := do
  intOf (← requireField md name)

/-- Modelled from the spec: `DeltaMeta.from_dict()`. -/
def DeltaMeta.fromDict (md : Metadata) : Except Error DeltaMeta := do
  pure {
    tool := ← requireField md "tool"
    originalName := ← requireField md "original_name"
    fileSha256 := ← requireField md "file_sha256"
    fileSize := ← requireSize md "file_size"
    createdAt := ← requireField md "created_at"
    refKey := ← requireField md "ref_key"
    refSha256 := ← requireField md "ref_sha256"
    deltaSize := ← requireSize md "delta_size"
    deltaCmd := ← requireField md "delta_cmd"
    note := resolveMetadata md "note" }

/-- Modelled from the spec: `is_delta_candidate`, a suffix test against the compound and the
simple extensions. -/
def isDeltaCandidate (filename : String) (simpleExtensions compoundExtensions : List String) :
    Bool :=
  compoundExtensions.any (endswith filename) || simpleExtensions.any (endswith filename)

structure PutSummary where
  operation : String
  bucket : String
  key : String
  originalName : String
  fileSize : Nat
  fileSha256 : String
  deltaSize : Option Nat := none
  deltaRatio : Option ℚ := none
  refKey : Option String := none
  refSha256 : Option String := none
  cacheHit : Bool := false
  deriving DecidableEq, Repr

structure VerifyResult where
  valid : Bool
  expectedSha256 : String
  actualSha256 : String
  message : String
  deriving DecidableEq, Repr

structure DeleteResult where
  key : String
  bucket : String
  deleted : Bool := false
  type : String := ""
  warnings : List String := []
  dependentDeltas : Nat := 0
  cleanedReference : Option String := none
  originalName : Option String := none
  deriving DecidableEq, Repr

structure RecursiveDeleteResult where
  bucket : String
  keyPrefix : String
  deletedCount : Nat := 0
  failedCount : Nat := 0
  deltasDeleted : Nat := 0
  referencesDeleted : Nat := 0
  directDeleted : Nat := 0
  otherDeleted : Nat := 0
  errors : List String := []
  warnings : List String := []
  deriving DecidableEq, Repr

structure PurgeResult where
  bucket : String
  keyPrefix : String
  deletedCount : Nat := 0
  expiredCount : Nat := 0
  errorCount : Nat := 0
  totalSizeFreed : Nat := 0
  errors : List String := []
  deriving DecidableEq, Repr

@[simp] theorem resolveMetadata_toDict (m : DeltaMeta) :
    resolveMetadata m.toDict "file_sha256" = some m.fileSha256 ∧
    resolveMetadata m.toDict "ref_key" = some m.refKey ∧
    resolveMetadata m.toDict "ref_sha256" = some m.refSha256 := by
  simp [resolveMetadata, lookup, DeltaMeta.toDict, dgKey, List.lookup_cons]

@[simp] theorem resolveMetadata_refToDict (m : ReferenceMeta) :
    resolveMetadata m.toDict "file_sha256" = some m.fileSha256 ∧
    resolveMetadata m.toDict "ref_key" = none := by
  simp [resolveMetadata, lookup, ReferenceMeta.toDict, dgKey, List.lookup_cons]

@[simp] theorem lookup_toDict_dgFileSha256 (m : DeltaMeta) :
    lookup m.toDict "dg-file-sha256" = some m.fileSha256 := by
  simp [lookup, DeltaMeta.toDict, List.lookup_cons]

@[simp] theorem lookup_toDict_expiresAt (m : DeltaMeta) : lookup m.toDict "dg-expires-at" = none := by
  cases h : m.note <;> simp [lookup, DeltaMeta.toDict, List.lookup_cons, h]

@[simp] theorem lookup_refToDict_expiresAt (m : ReferenceMeta) :
    lookup m.toDict "dg-expires-at" = none := by
  simp [lookup, ReferenceMeta.toDict, List.lookup_cons]

@[simp] theorem lookup_toDict_compression (m : DeltaMeta) : lookup m.toDict "compression" = none := by
  cases h : m.note <;> simp [lookup, DeltaMeta.toDict, List.lookup_cons, h]

theorem except_bind_eq_ok {α β : Type} {x : Except Error α} {f : α → Except Error β} {b : β} :
    x >>= f = .ok b ↔ ∃ a, x = .ok a ∧ f a = .ok b := by
  cases x <;> simp [bind, Except.bind]

theorem requireField_eq_ok {md : Metadata} {name v : String} :
    requireField md name = .ok v ↔ resolveMetadata md name = some v := by
  unfold requireField; split <;> simp_all

theorem fromDict_eq_ok {md : Metadata} {m : DeltaMeta} (h : DeltaMeta.fromDict md = .ok m) :
    resolveMetadata md "file_sha256" = some m.fileSha256 ∧
      resolveMetadata md "ref_key" = some m.refKey ∧
      resolveMetadata md "ref_sha256" = some m.refSha256 := by
  simp only [DeltaMeta.fromDict, except_bind_eq_ok, requireField_eq_ok] at h
  obtain ⟨_, _, _, _, _, hs, _, _, _, _, _, hk, _, hr, _, _, _, _, _, _, rfl⟩ := h
  exact ⟨hs, hk, hr⟩

theorem fromDict_toDict (m : DeltaMeta) : DeltaMeta.fromDict m.toDict = .ok m := by
  cases m with
  | mk tool name fs sz ca rk rs ds dc note =>
    cases note <;>
      simp [DeltaMeta.fromDict, requireSize, requireField, resolveMetadata, lookup,
        DeltaMeta.toDict, dgKey, List.lookup_cons, intOf, pyInt_toString, bind, Except.bind, pure,
        Except.pure]

end DeltaGlider
