import DeltaGlider.Exec

/-! # `DeltaService.put` (`service.py`)

Logging, metrics and the `max_ratio` warning change neither the store, the cache nor the result,
and are left out. -/

namespace DeltaGlider

structure DeltaService where
  toolVersion : String
  deltaExtensions : List String
  compoundDeltaExtensions : List String
  /-- `datetime.isoformat()` of a UTC instant, in seconds. -/
  isoformat : Int → String
  /-- `datetime.fromisoformat()`, with a missing time zone read as UTC. -/
  fromisoformat : String → Option Int

structure LocalFile where
  name : String
  data : Bytes
  deriving DecidableEq, Repr

/-- `existing_sha if ref_head and existing_sha and existing_sha != file_sha256 else file_sha256`:
the SHA a new zero-delta is bound to after the re-check for a reference-creation race. -/
def boundRefSha (existingSha : Option String) (fileSha256 : String) : String :=
  match existingSha with
  | some e => if e ≠ "" ∧ e ≠ fileSha256 then e else fileSha256
  | none => fileSha256

@[simp] theorem boundRefSha_self (s : String) : boundRefSha (some s) s = s := by simp [boundRefSha]

def deltaCmd (originalName : String) : String :=
  "xdelta3 -e -9 -s reference.bin " ++ originalName ++ " " ++ originalName ++ ".delta"

def originalNameOf (localFile : LocalFile) (overrideName : Option String) : String :=
  match overrideName with
  | some n => if n ≠ "" then n else localFile.name
  | none => localFile.name

namespace DeltaService

variable (svc : DeltaService)

def shouldUseDelta (filename : String) : Bool :=
  isDeltaCandidate filename svc.deltaExtensions svc.compoundDeltaExtensions

/-- `_cache_reference`: its download is a `NamedTemporaryFile(delete=False)`, removed only on
the mismatch path and after the cache write. -/
def cacheReference (deltaSpace : DeltaSpace) (expectedSha : String) : Prog Unit := do
  let refKey := deltaSpace.referenceKey
  let tmpRef ← mkTemp
  let refStream ← Storage.get ⟨deltaSpace.bucket, refKey⟩
  let actualSha ← Hasher.sha256 refStream
  if actualSha ≠ expectedSha then
    rmTemp tmpRef
    throw (.integrityMismatch
      ("Reference SHA mismatch: expected " ++ expectedSha ++ ", got " ++ actualSha))
  CachePort.writeRef deltaSpace.bucket deltaSpace.keyPrefix refStream
  rmTemp tmpRef

/-- "Ensure reference is cached", as `get` and `_create_delta` both do it: `has_ref`, then
`_cache_reference` on a miss. -/
def ensureReference (deltaSpace : DeltaSpace) (refSha256 : String) : Prog Bool := do
  let cacheHit ← CachePort.hasRef deltaSpace.bucket deltaSpace.keyPrefix refSha256
  if !cacheHit then cacheReference deltaSpace refSha256
  pure cacheHit

def uploadDirect (localFile : LocalFile) (deltaSpace : DeltaSpace) (fileSha256 originalName : String)
    (fileSize : Nat) : Prog PutSummary := do
  let key := deltaSpace.directKey originalName
  let now ← Clock.now
  let metadata : Metadata :=
    [("tool", svc.toolVersion), ("original_name", originalName), ("file_sha256", fileSha256),
      ("file_size", toString fileSize), ("created_at", svc.isoformat now),
      ("compression", "none")]
  Storage.put ⟨deltaSpace.bucket, key⟩ localFile.data metadata
  pure { operation := "upload_direct", bucket := deltaSpace.bucket, key, originalName, fileSize,
         fileSha256 }

def createReference (localFile : LocalFile) (deltaSpace : DeltaSpace)
    (fileSha256 originalName : String) (fileSize : Nat) : Prog PutSummary := do
  let refKey := deltaSpace.referenceKey
  let createdAt ← Clock.now
  let refMeta : ReferenceMeta :=
    ⟨svc.toolVersion, originalName, fileSha256, svc.isoformat createdAt⟩
  Storage.put ⟨deltaSpace.bucket, refKey⟩ localFile.data refMeta.toDict
  let refHead ← Storage.head ⟨deltaSpace.bucket, refKey⟩
  let refSha256 := boundRefSha (refHead.bind fun h => resolveMetadata h.metadata "file_sha256")
    fileSha256
  CachePort.writeRef deltaSpace.bucket deltaSpace.keyPrefix localFile.data
  let deltaKey := deltaSpace.deltaKey originalName
  withTemp fun _ => do
    let zeroDelta ← Diff.encode localFile.data localFile.data
    let createdAt ← Clock.now
    let deltaMeta : DeltaMeta :=
      { tool := svc.toolVersion, originalName, fileSha256, fileSize,
        createdAt := svc.isoformat createdAt, refKey, refSha256, deltaSize := zeroDelta.length,
        deltaCmd := deltaCmd originalName, note := some "zero-diff (reference identical)" }
    Storage.put ⟨deltaSpace.bucket, deltaKey⟩ zeroDelta deltaMeta.toDict
  pure { operation := "create_reference", bucket := deltaSpace.bucket, key := refKey,
         originalName, fileSize, fileSha256 }

def requireRefSha (refHead : ObjectHead) : Prog String :=
  match resolveMetadata refHead.metadata "file_sha256" with
  | some s => if s ≠ "" then pure s else throw (.value "Reference metadata missing file SHA256")
  | none => throw (.value "Reference metadata missing file SHA256")

def createDelta (localFile : LocalFile) (deltaSpace : DeltaSpace) (refHead : ObjectHead)
    (fileSha256 originalName : String) (fileSize : Nat) : Prog PutSummary := do
  let refKey := deltaSpace.referenceKey
  let refSha256 ← requireRefSha refHead
  let cacheHit ← ensureReference deltaSpace refSha256
  let refPath ← CachePort.getValidatedRef deltaSpace.bucket deltaSpace.keyPrefix refSha256
  withTemp fun _ => do
    let delta ← tryCatch (Diff.encode refPath localFile.data) fun e =>
      throw (.diffEncode ("Failed to encode delta: " ++ e.message))
    if fileSize = 0 then throw (.zeroDivision "division by zero")
    let deltaRatio : ℚ := delta.length / fileSize
    let deltaKey := deltaSpace.deltaKey originalName
    let createdAt ← Clock.now
    let deltaMeta : DeltaMeta :=
      { tool := svc.toolVersion, originalName, fileSha256, fileSize,
        createdAt := svc.isoformat createdAt, refKey, refSha256, deltaSize := delta.length,
        deltaCmd := deltaCmd originalName, note := none }
    Storage.put ⟨deltaSpace.bucket, deltaKey⟩ delta deltaMeta.toDict
    pure { operation := "create_delta", bucket := deltaSpace.bucket, key := deltaKey,
           originalName, fileSize, fileSha256, deltaSize := some delta.length,
           deltaRatio := some deltaRatio, refKey := some refKey, refSha256 := some refSha256,
           cacheHit }

def put (localFile : LocalFile) (deltaSpace : DeltaSpace) (overrideName : Option String) :
    Prog PutSummary := do
  let fileSize := localFile.data.length
  let fileSha256 ← Hasher.sha256 localFile.data
  let originalName := originalNameOf localFile overrideName
  if !svc.shouldUseDelta originalName then
    svc.uploadDirect localFile deltaSpace fileSha256 originalName fileSize
  else
    let refHead ← Storage.head ⟨deltaSpace.bucket, deltaSpace.referenceKey⟩
    match refHead with
    | none => svc.createReference localFile deltaSpace fileSha256 originalName fileSize
    | some refHead => svc.createDelta localFile deltaSpace refHead fileSha256 originalName fileSize

def putKey (deltaSpace : DeltaSpace) (originalName : String) : String :=
  if svc.shouldUseDelta originalName then deltaSpace.deltaKey originalName
  else deltaSpace.directKey originalName

section Spec

variable {E : Engine} {w w' : World} (f : LocalFile) (ds : DeltaSpace) (fs n : String) (size : Nat)

theorem run_put (o : Option String) :
    run E (svc.put f ds o) w =
      if svc.shouldUseDelta (originalNameOf f o) then
        match w.store.lookup ⟨ds.bucket, ds.referenceKey⟩ with
        | none => run E (svc.createReference f ds (E.sha256 f.data) (originalNameOf f o) f.data.length) w
        | some ref => run E (svc.createDelta f ds (ref.head ⟨ds.bucket, ds.referenceKey⟩)
            (E.sha256 f.data) (originalNameOf f o) f.data.length) w
      else run E (svc.uploadDirect f ds (E.sha256 f.data) (originalNameOf f o) f.data.length) w := by
  cases hd : svc.shouldUseDelta (originalNameOf f o) <;> simp [put, run_bind, hd]
  cases w.store.lookup ⟨ds.bucket, ds.referenceKey⟩ <;> rfl

theorem run_uploadDirect :
    run E (svc.uploadDirect f ds fs n size) w =
      (.ok { operation := "upload_direct", bucket := ds.bucket, key := ds.directKey n,
             originalName := n, fileSize := size, fileSha256 := fs },
       { w with store := (w.store.insert ⟨ds.bucket, ds.directKey n⟩
           ⟨f.data, [("tool", svc.toolVersion), ("original_name", n), ("file_sha256", fs),
             ("file_size", toString size), ("created_at", svc.isoformat w.clock),
             ("compression", "none")]⟩) }) := by
  simp [uploadDirect, run_bind]

theorem run_createReference {z : Bytes} (hz : E.encode f.data f.data = some z) :
    run E (svc.createReference f ds fs n size) w =
      (.ok { operation := "create_reference", bucket := ds.bucket, key := ds.referenceKey,
             originalName := n, fileSize := size, fileSha256 := fs },
       { w with
         store := ((w.store.insert ⟨ds.bucket, ds.referenceKey⟩
             ⟨f.data, (⟨svc.toolVersion, n, fs, svc.isoformat w.clock⟩ : ReferenceMeta).toDict⟩).insert
           ⟨ds.bucket, ds.deltaKey n⟩
             ⟨z, { tool := svc.toolVersion, originalName := n, fileSha256 := fs, fileSize := size,
                   createdAt := svc.isoformat w.clock, refKey := ds.referenceKey, refSha256 := fs,
                   deltaSize := z.length, deltaCmd := deltaCmd n,
                   note := some "zero-diff (reference identical)" : DeltaMeta }.toDict⟩)
         cache := w.cache.insert (ds.bucket, ds.keyPrefix) f.data
         files := removeScratch w.files w.nextTemp
         nextTemp := w.nextTemp + 1 }) := by
  simp [createReference, run_bind, hz]

theorem run_createReference_encodeFailed (hz : E.encode f.data f.data = none) :
    run E (svc.createReference f ds fs n size) w =
      (.error (.diffEncode "xdelta3 encode failed"),
       { w with
         store := (w.store.insert ⟨ds.bucket, ds.referenceKey⟩
             ⟨f.data, (⟨svc.toolVersion, n, fs, svc.isoformat w.clock⟩ : ReferenceMeta).toDict⟩)
         cache := w.cache.insert (ds.bucket, ds.keyPrefix) f.data
         files := removeScratch w.files w.nextTemp
         nextTemp := w.nextTemp + 1 }) := by
  simp [createReference, run_bind, hz]

theorem run_requireRefSha_eq_ok (hd : ObjectHead) (rs : String) :
    run E (requireRefSha hd) w = (.ok rs, w') ↔
      resolveMetadata hd.metadata "file_sha256" = some rs ∧ rs ≠ "" ∧ w' = w := by
  unfold requireRefSha
  split <;> [split; skip] <;> simp_all [eq_comm]

theorem run_ensureReference_hit (sha : String)
    (h : cacheHas E w.cache ds.bucket ds.keyPrefix sha = true) :
    run E (ensureReference ds sha) w = (.ok true, w) := by
  simp [ensureReference, run_bind, h]

theorem run_ensureReference_miss (sha : String) {o : StoredObject}
    (h : cacheHas E w.cache ds.bucket ds.keyPrefix sha = false)
    (ho : w.store.lookup ⟨ds.bucket, ds.referenceKey⟩ = some o) (hs : E.sha256 o.data = sha) :
    run E (ensureReference ds sha) w =
      (.ok false, { w with cache := w.cache.insert (ds.bucket, ds.keyPrefix) o.data,
                           files := removeScratch w.files w.nextTemp, nextTemp := w.nextTemp + 1 }) := by
  simp [ensureReference, cacheReference, run_bind, h, ho, hs]

theorem run_ensureReference_eq_ok (sha : String) (hit : Bool) :
    run E (ensureReference ds sha) w = (.ok hit, w') →
      ∃ r, w'.cache.lookup (ds.bucket, ds.keyPrefix) = some r ∧ E.sha256 r = sha ∧
        w'.store = w.store := by
  intro h
  cases hc : cacheHas E w.cache ds.bucket ds.keyPrefix sha
  · rcases ho : w.store.lookup ⟨ds.bucket, ds.referenceKey⟩ with _ | o
    · simp [ensureReference, cacheReference, run_bind, hc, ho] at h
    · by_cases hs : E.sha256 o.data = sha
      · rw [run_ensureReference_miss ds sha hc ho hs] at h
        obtain ⟨-, rfl⟩ := h
        exact ⟨o.data, by simp, hs, rfl⟩
      · simp [ensureReference, cacheReference, run_bind, hc, ho, hs] at h
  · rw [run_ensureReference_hit ds sha hc] at h
    obtain ⟨-, rfl⟩ := h
    simpa using cacheHas_iff.1 hc

/-- A delta is stored only after the reference SHA was read, the cached reference validated and
the delta encoded against it. -/
theorem createDelta_ok (hd : ObjectHead) {s : PutSummary}
    (h : run E (svc.createDelta f ds hd fs n size) w = (.ok s, w')) :
    ∃ rs r z, resolveMetadata hd.metadata "file_sha256" = some rs ∧
      w'.cache.lookup (ds.bucket, ds.keyPrefix) = some r ∧ E.sha256 r = rs ∧
      E.encode r f.data = some z ∧
      ∃ c, w'.store = w.store.insert ⟨ds.bucket, ds.deltaKey n⟩
             ⟨z, { tool := svc.toolVersion, originalName := n, fileSha256 := fs, fileSize := size,
                   createdAt := c, refKey := ds.referenceKey, refSha256 := rs,
                   deltaSize := z.length, deltaCmd := deltaCmd n, note := none : DeltaMeta }.toDict⟩ := by
  simp only [createDelta] at h
  obtain ⟨rs, w1, h1, hk1⟩ := run_bind_eq_ok.1 h
  obtain ⟨hrs, -, rfl⟩ := (run_requireRefSha_eq_ok hd rs).1 h1
  obtain ⟨hit, w2, h2, hk2⟩ := run_bind_eq_ok.1 hk1
  obtain ⟨r, hr, hrsha, hst⟩ := run_ensureReference_eq_ok ds rs hit h2
  obtain ⟨r', w3, h3, hk3⟩ := run_bind_eq_ok.1 hk2
  simp only [run_getValidatedRef, hr, hrsha, if_true, Prod.mk.injEq, Except.ok.injEq] at h3
  obtain ⟨rfl, rfl⟩ := h3
  rcases hz : E.encode r f.data with _ | z
  · simp [run_bind, run_tryCatch, hz] at hk3
  · by_cases hs : size = 0
    · simp [run_bind, run_tryCatch, hz, hs] at hk3
    · simp [run_bind, run_tryCatch, hz, hs] at hk3
      obtain ⟨-, rfl⟩ := hk3
      exact ⟨rs, r, z, hrs, by simpa using hr, hrsha, hz, svc.isoformat w2.clock, by simp [hst]⟩

/-- An object `put` stores as the file itself: the file's bytes, recording its SHA, no reference
and no expiry. -/
def PlainWrite (data : Bytes) (fs : String) (o : StoredObject) : Prop :=
  o.data = data ∧ resolveMetadata o.metadata "file_sha256" = some fs ∧
    resolveMetadata o.metadata "ref_key" = none ∧ lookup o.metadata "dg-expires-at" = none

theorem returns_requireRefSha (hd : ObjectHead) :
    Returns (fun s => resolveMetadata hd.metadata "file_sha256" = some s) (requireRefSha hd) := by
  unfold requireRefSha; split <;> [split; skip]
  · exact .pure ‹_›
  all_goals exact .throw _

theorem writes_requireRefSha {P : ObjectKey → Option StoredObject → Prop} (hd : ObjectHead) :
    Writes P (requireRefSha hd) := by
  unfold requireRefSha; split <;> [split; skip] <;> constructor

theorem writes_uploadDirect :
    Writes (fun k v => k = ⟨ds.bucket, ds.directKey n⟩ ∧ ∀ o, v = some o → PlainWrite f.data fs o)
      (svc.uploadDirect f ds fs n size) :=
  .bind (.perform_none rfl) fun _ =>
    .bind (.storagePut ⟨rfl, by rintro o ⟨⟩; exact ⟨rfl, rfl, rfl, rfl⟩⟩) fun _ => .pure _

theorem writes_cacheReference (sha : String) : Writes (fun _ _ => False) (cacheReference ds sha) := by
  unfold cacheReference
  repeat' first
    | exact .pure _
    | exact .throw _
    | exact .perform_none rfl
    | refine .bind ?_ fun _ => ?_
    | split

theorem writes_ensureReference (sha : String) :
    Writes (fun _ _ => False) (ensureReference ds sha) := by
  unfold ensureReference
  repeat' first
    | exact .pure _
    | exact .perform_none rfl
    | exact writes_cacheReference ds sha
    | refine .bind ?_ fun _ => ?_
    | split

theorem writes_createReference :
    Writes (fun k v => (k = ⟨ds.bucket, ds.referenceKey⟩ ∧ ∀ o, v = some o → PlainWrite f.data fs o) ∨
        (k = ⟨ds.bucket, ds.deltaKey n⟩ ∧
          ∀ o, v = some o → resolveMetadata o.metadata "ref_key" = some ds.referenceKey))
      (svc.createReference f ds fs n size) := by
  unfold createReference
  repeat' first
    | exact .pure _
    | exact .perform_none rfl
    | exact .storagePut (.inl ⟨rfl, by
        rintro o ⟨⟩
        exact ⟨rfl, (resolveMetadata_refToDict _).1, (resolveMetadata_refToDict _).2,
          lookup_refToDict_expiresAt _⟩⟩)
    | exact .storagePut (.inr ⟨rfl, by rintro o ⟨⟩; exact (resolveMetadata_toDict _).2.1⟩)
    | refine .bind ?_ fun _ => ?_
    | refine .withTemp fun _ => ?_
    | refine .tryFinally ?_ ?_

theorem writes_createDelta (hd : ObjectHead) :
    Writes (fun k v => k = ⟨ds.bucket, ds.deltaKey n⟩ ∧ ∀ o, v = some o →
        resolveMetadata o.metadata "ref_key" = some ds.referenceKey ∧
        resolveMetadata o.metadata "ref_sha256" = resolveMetadata hd.metadata "file_sha256")
      (svc.createDelta f ds hd fs n size) := by
  unfold createDelta
  refine .bind_returns (writes_requireRefSha hd) (returns_requireRefSha hd) fun rs hrs => ?_
  repeat' first
    | exact .pure _
    | exact .throw _
    | exact .perform_none rfl
    | exact (writes_ensureReference ds _).mono fun _ _ => False.elim
    | exact .storagePut ⟨rfl, by
        rintro o ⟨⟩; exact ⟨(resolveMetadata_toDict _).2.1, (resolveMetadata_toDict _).2.2.trans hrs.symm⟩⟩
    | refine .bind ?_ fun _ => ?_
    | refine .tryCatch ?_ fun _ => ?_
    | refine .withTemp fun _ => ?_
    | refine .tryFinally ?_ ?_
    | split

theorem writes_uploadDirect_noDgSha :
    Writes (fun _ v => v ≠ none ∧ ∀ o, v = some o → lookup o.metadata "dg-file-sha256" = none)
      (svc.uploadDirect f ds fs n size) :=
  .bind (.perform_none rfl) fun _ =>
    .bind (.storagePut ⟨Option.some_ne_none _, by rintro o ⟨⟩; rfl⟩) fun _ => .pure _

theorem writes_createReference_fileSha :
    Writes (fun _ v => ∀ o, v = some o → resolveMetadata o.metadata "file_sha256" = some fs)
      (svc.createReference f ds fs n size) := by
  unfold createReference
  repeat' first
    | exact .pure _
    | exact .perform_none rfl
    | exact .storagePut (by rintro o ⟨⟩; exact (resolveMetadata_refToDict _).1)
    | exact .storagePut (by rintro o ⟨⟩; exact (resolveMetadata_toDict _).1)
    | refine .bind ?_ fun _ => ?_
    | refine .withTemp fun _ => ?_
    | refine .tryFinally ?_ ?_

theorem writes_createDelta_fileSha (hd : ObjectHead) :
    Writes (fun _ v => ∀ o, v = some o → resolveMetadata o.metadata "file_sha256" = some fs)
      (svc.createDelta f ds hd fs n size) := by
  unfold createDelta
  refine .bind (writes_requireRefSha hd) fun _ => ?_
  repeat' first
    | exact .pure _
    | exact .throw _
    | exact .perform_none rfl
    | exact (writes_ensureReference ds _).mono fun _ _ => False.elim
    | exact .storagePut (by rintro o ⟨⟩; exact (resolveMetadata_toDict _).1)
    | refine .bind ?_ fun _ => ?_
    | refine .tryCatch ?_ fun _ => ?_
    | refine .withTemp fun _ => ?_
    | refine .tryFinally ?_ ?_
    | split

theorem exec_put_cases (o : Option String) {w w' : World} {r : Except Error PutSummary}
    (hx : Exec E (svc.put f ds o) w r w') :
    w' = w ∨
    (svc.shouldUseDelta (originalNameOf f o) = false ∧
      Exec E (svc.uploadDirect f ds (E.sha256 f.data) (originalNameOf f o) f.data.length) w r w') ∨
    (svc.shouldUseDelta (originalNameOf f o) = true ∧
      w.store.lookup ⟨ds.bucket, ds.referenceKey⟩ = none ∧
      Exec E (svc.createReference f ds (E.sha256 f.data) (originalNameOf f o) f.data.length) w r w') ∨
    (svc.shouldUseDelta (originalNameOf f o) = true ∧
      ∃ ref, w.store.lookup ⟨ds.bucket, ds.referenceKey⟩ = some ref ∧
      Exec E (svc.createDelta f ds (ref.head ⟨ds.bucket, ds.referenceKey⟩) (E.sha256 f.data)
        (originalNameOf f o) f.data.length) w r w') := by
  unfold put at hx
  rcases Exec.perform_bind_inv hx with ⟨fs, hfs, hx⟩ | ⟨e, -, rfl | ⟨he, -⟩⟩
  · simp only [Call.interp, Except.ok.injEq] at hfs hx
    subst hfs
    cases hd : svc.shouldUseDelta (originalNameOf f o)
    · simp only [hd, Bool.not_false, if_true] at hx
      exact .inr (.inl ⟨rfl, hx⟩)
    · simp only [hd, Bool.not_true] at hx
      rcases Exec.perform_bind_inv hx with ⟨rh, hrh, hx⟩ | ⟨e, -, rfl | ⟨he, -⟩⟩
      · simp only [Call.interp, Except.ok.injEq] at hrh hx
        subst hrh
        rcases href : w.store.lookup ⟨ds.bucket, ds.referenceKey⟩ with _ | ref <;>
          simp only [href, Option.map_none', Option.map_some'] at hx
        · exact .inr (.inr (.inl ⟨rfl, href, hx⟩))
        · exact .inr (.inr (.inr ⟨rfl, ref, href, hx⟩))
      · exact .inl rfl
      · simp [Call.interp] at he
  · exact .inl rfl
  · simp [Call.interp] at he

theorem put_store (o : Option String) {w w' : World} {r : Except Error PutSummary}
    (hx : Exec E (svc.put f ds o) w r w') (k : ObjectKey) :
    w'.store.lookup k = w.store.lookup k ∨ k = ⟨ds.bucket, svc.putKey ds (originalNameOf f o)⟩ ∨
      (k = ⟨ds.bucket, ds.referenceKey⟩ ∧ w.store.lookup k = none) := by
  rcases exec_put_cases svc f ds o hx with rfl | ⟨hd, hx⟩ | ⟨hd, hnone, hx⟩ | ⟨hd, _, -, hx⟩
  · exact .inl rfl
  · refine ((writes_uploadDirect svc f ds _ _ _).lookup hx k).imp_right fun h => .inl ?_
    simp [putKey, hd, h.1]
  · rcases (writes_createReference svc f ds _ _ _).lookup hx k with h | ⟨h, -⟩ | ⟨h, -⟩
    · exact .inl h
    · exact .inr (.inr ⟨h, h ▸ hnone⟩)
    · exact .inr (.inl (by simp [putKey, hd, h]))
  · refine ((writes_createDelta svc f ds _ _ _ _).lookup hx k).imp_right fun h => .inl ?_
    simp [putKey, hd, h.1]

/-- After a normal return `put`'s key holds the object it wrote: the file itself, under bare
metadata keys, or a delta recording a reference and the file's SHA. -/
theorem run_put_ok_lookup (o : Option String) {s : PutSummary}
    (h : run E (svc.put f ds o) w = (.ok s, w')) :
    ∃ o', w'.store.lookup ⟨ds.bucket, svc.putKey ds (originalNameOf f o)⟩ = some o' ∧
      ((o'.data = f.data ∧ lookup o'.metadata "dg-file-sha256" = none) ∨
        (∃ rk, resolveMetadata o'.metadata "ref_key" = some rk) ∧
          resolveMetadata o'.metadata "file_sha256" = some (E.sha256 f.data)) := by
  rw [run_put] at h
  -- `AList.lookup`'s key is a dependent argument, which `simp` does not rewrite
  cases hd : svc.shouldUseDelta (originalNameOf f o) <;>
    simp only [hd, if_false, if_true, Bool.false_eq_true] at h <;>
    rw [putKey, hd] <;> first | rw [if_pos rfl] | rw [if_neg Bool.false_ne_true]
  · -- `_upload_direct`
    rw [run_uploadDirect, Prod.mk.injEq] at h
    obtain ⟨-, rfl⟩ := h
    refine ⟨_, AList.lookup_insert _, ?_⟩
    exact .inl ⟨rfl, rfl⟩
  split at h
  · -- `_create_reference`, whose zero-delta goes up only once encoded
    rcases hz : E.encode f.data f.data with _ | z
    · rw [run_createReference_encodeFailed svc f ds _ _ _ hz] at h; cases h
    rw [run_createReference svc f ds _ _ _ hz, Prod.mk.injEq] at h
    obtain ⟨-, rfl⟩ := h
    refine ⟨_, AList.lookup_insert _, ?_⟩
    exact .inr ⟨⟨_, (resolveMetadata_toDict _).2.1⟩, (resolveMetadata_toDict _).1⟩
  · -- `_create_delta`
    obtain ⟨_, _, _, -, -, -, -, _, hst⟩ := svc.createDelta_ok f ds _ _ _ _ h
    rw [hst]
    refine ⟨_, AList.lookup_insert _, ?_⟩
    exact .inr ⟨⟨_, (resolveMetadata_toDict _).2.1⟩, (resolveMetadata_toDict _).1⟩

theorem strict_cacheReference (sha : String) : Strict (cacheReference ds sha) := by
  unfold cacheReference
  repeat' first
    | exact .pure _
    | exact .throw _
    | exact .perform _
    | refine .bind ?_ fun _ => ?_
    | split

theorem strict_ensureReference (sha : String) : Strict (ensureReference ds sha) := by
  unfold ensureReference
  repeat' first
    | exact .pure _
    | exact .perform _
    | exact strict_cacheReference ds sha
    | refine .bind ?_ fun _ => ?_
    | split

theorem sinkGuard_cacheReference {n : Nat} {out : Sink} (ds : DeltaSpace) (sha : String) :
    SinkGuard E n out (fun _ => False) (cacheReference ds sha) := by
  unfold cacheReference
  repeat' first
    | exact .pure _
    | exact .throw _
    | exact SinkGuard.perform rfl
    | exact SinkGuard.rmTemp' (by assumption)
    | refine SinkGuard.mkTemp_bind fun _ _ => ?_
    | refine SinkGuard.sha256_bind ?_
    | refine SinkGuard.bind ?_ fun _ => ?_
    | split

theorem sinkGuard_ensureReference {n : Nat} {out : Sink} (ds : DeltaSpace) (sha : String) :
    SinkGuard E n out (fun _ => False) (ensureReference ds sha) := by
  unfold ensureReference
  repeat' first
    | exact .pure _
    | exact SinkGuard.perform rfl
    | exact sinkGuard_cacheReference ds sha
    | refine SinkGuard.bind ?_ fun _ => ?_
    | split

theorem strict_createDelta (hd : ObjectHead) : Strict (svc.createDelta f ds hd fs n size) := by
  unfold createDelta requireRefSha
  repeat' first
    | exact .pure _
    | exact .throw _
    | exact .perform _
    | exact strict_ensureReference ds _
    | refine .withTemp fun _ => ?_
    | refine .tryCatch ?_ fun _ => .throw _
    | refine .bind ?_ fun _ => ?_
    | split

theorem strict_put (o : Option String) : Strict (svc.put f ds o) := by
  unfold put uploadDirect createReference
  dsimp only
  repeat' first
    | exact .pure _
    | exact .perform _
    | exact strict_createDelta svc f ds _ _ _ _
    | refine .withTemp fun _ => ?_
    | refine .bind ?_ fun _ => ?_
    | split

end Spec

end DeltaService

end DeltaGlider
