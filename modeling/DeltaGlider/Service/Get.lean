import DeltaGlider.Service.Put

/-! # `DeltaService.get` and `verify` (`service.py`)

The hasher reads a path as the bytes last written to it. -/

namespace DeltaGlider

namespace DeltaService

/-- The deltaspace prefix `get` recovers from a `ref_key`:
`"/".join(ref_key.split("/")[:-1])` when it has a `/`, else `""`. -/
def refPrefix (refKey : String) : String := if hasSlash refKey then parentKey refKey else ""

def emit (out : Sink) (data : Bytes) : Prog Unit :=
  match out with
  | .path p => writeFile p data
  | .stream => writeStream data

def getDirect (objectKey : ObjectKey) (objHead : ObjectHead) (out : Sink) : Prog Unit := do
  let fileStream ← Storage.get objectKey
  emit out fileStream
  match resolveMetadata objHead.metadata "file_sha256", out with
  | some expectedSha, .path p =>
    if expectedSha ≠ "" then
      let actualSha ← Hasher.sha256 (← readFile p)
      if actualSha ≠ expectedSha then
        throw (.integrityMismatch
          ("SHA256 mismatch: expected " ++ expectedSha ++ ", got " ++ actualSha))
  | _, _ => pure ()

/-- `int(file_size_meta) if file_size_meta else obj_head.size`: the size `get` logs for a direct
upload, after the download. -/
def fileSizeValue (objHead : ObjectHead) : Except Error Int :=
  match resolveMetadata objHead.metadata "file_size" with
  | some v => if v ≠ "" then intOf v else .ok objHead.size
  | none => .ok objHead.size

def get (objectKey : ObjectKey) (out : Sink) : Prog Unit := do
  let some objHead ← Storage.head objectKey
    | throw (.notFound ("Object not found: " ++ objectKey.key))
  if (lookup objHead.metadata "dg-file-sha256").isNone then
    getDirect objectKey objHead out
  else if lookup objHead.metadata "compression" = some "none" then
    getDirect objectKey objHead out
    let _ ← Prog.ofExcept (fileSizeValue objHead)
    pure ()
  else
    let deltaMeta ← Prog.ofExcept (DeltaMeta.fromDict objHead.metadata)
    let deltaSpace : DeltaSpace := ⟨objectKey.bucket, refPrefix deltaMeta.refKey⟩
    let _ ← ensureReference deltaSpace deltaMeta.refSha256
    withTemp fun _ => do
      let refPath ←
        CachePort.getValidatedRef deltaSpace.bucket deltaSpace.keyPrefix deltaMeta.refSha256
      let delta ← Storage.get objectKey
      let output ← tryCatch (Diff.decode refPath delta) fun e =>
        throw (.diffDecode ("Failed to decode delta: " ++ e.message))
      let actualSha ← Hasher.sha256 output
      if actualSha ≠ deltaMeta.fileSha256 then
        throw (.integrityMismatch
          ("SHA256 mismatch: expected " ++ deltaMeta.fileSha256 ++ ", got " ++ actualSha))
      emit out output

def verify (deltaKey : ObjectKey) : Prog VerifyResult :=
  withTemp fun tmpdir => do
    let outPath := LocalPath.scratch tmpdir "output"
    get deltaKey (.path outPath)
    let some deltaHead ← Storage.head deltaKey
      | throw (.notFound ("Delta not found: " ++ deltaKey.key))
    let deltaMeta ← Prog.ofExcept (DeltaMeta.fromDict deltaHead.metadata)
    let actualSha ← Hasher.sha256 (← readFile outPath)
    let valid := decide (actualSha = deltaMeta.fileSha256)
    pure ⟨valid, deltaMeta.fileSha256, actualSha,
      if valid then "Integrity verified" else "Integrity check failed"⟩

section Spec

variable {E : Engine} {w : World}

theorem refPrefix_referenceKey (ds : DeltaSpace) : refPrefix ds.referenceKey = ds.keyPrefix := by
  unfold DeltaSpace.referenceKey refPrefix
  by_cases h : ds.keyPrefix = ""
  · simp [h]; decide
  · have e : ds.keyPrefix ++ "/reference.bin" = ds.keyPrefix ++ "/" ++ "reference.bin" := by
      rw [String.append_assoc]; rfl
    rw [if_pos h, e, hasSlash_append_slash, if_pos rfl, parentKey_append _ _ (by decide)]

theorem run_getDirect_path {k : ObjectKey} {o : StoredObject} (hk : w.store.lookup k = some o)
    (hv : ∀ s, resolveMetadata o.metadata "file_sha256" = some s → s ≠ "" → E.sha256 o.data = s)
    (q : LocalPath) :
    run E (getDirect k (o.head k) (.path q)) w = (.ok (), { w with files := w.files.insert q o.data }) := by
  rcases hres : resolveMetadata o.metadata "file_sha256" with _ | s
  · simp [getDirect, run_bind, emit, hk, hres]
  · by_cases hs : s = ""
    · simp [getDirect, run_bind, emit, hk, hres, hs]
    · simp [getDirect, run_bind, emit, hk, hres, hs, hv s hres hs]

theorem run_get_direct {k : ObjectKey} {o : StoredObject} (hk : w.store.lookup k = some o)
    (hbr : lookup o.metadata "dg-file-sha256" = none ∨
      lookup o.metadata "compression" = some "none" ∧ ∃ n, fileSizeValue (o.head k) = .ok n)
    (hv : ∀ s, resolveMetadata o.metadata "file_sha256" = some s → s ≠ "" → E.sha256 o.data = s)
    (q : LocalPath) :
    run E (get k (.path q)) w = (.ok (), { w with files := w.files.insert q o.data }) := by
  have hd := run_getDirect_path (E := E) hk hv q
  by_cases h' : lookup o.metadata "dg-file-sha256" = none
  · simp [get, run_bind, hk, h', hd]
  · obtain ⟨hc, n, hn⟩ := hbr.resolve_left h'
    simp [get, run_bind, hk, hc, h', hd, hn, run_ofExcept]

theorem run_get_direct_sizeError {k : ObjectKey} {o : StoredObject} (hk : w.store.lookup k = some o)
    (hdg : lookup o.metadata "dg-file-sha256" ≠ none) (hc : lookup o.metadata "compression" = some "none")
    {e : Error} (he : fileSizeValue (o.head k) = .error e)
    (hv : ∀ s, resolveMetadata o.metadata "file_sha256" = some s → s ≠ "" → E.sha256 o.data = s)
    (q : LocalPath) :
    run E (get k (.path q)) w = (.error e, { w with files := w.files.insert q o.data }) := by
  simp [get, run_bind, hk, hc, hdg, run_getDirect_path hk hv q, he, run_ofExcept]

theorem get_delta_ok_path {k : ObjectKey} {z : Bytes} {m : DeltaMeta} {hit : Bool} {w1 : World}
    {r t : Bytes} (hk : w.store.lookup k = some ⟨z, m.toDict⟩)
    (hens : run E (ensureReference ⟨k.bucket, refPrefix m.refKey⟩ m.refSha256) w = (.ok hit, w1))
    (hr : w1.cache.lookup (k.bucket, refPrefix m.refKey) = some r)
    (hdec : E.decode r z = some t) (ht : E.sha256 t = m.fileSha256) {q : LocalPath}
    (hq : q.Before w.nextTemp) :
    ∃ w', run E (get k (.path q)) w = (.ok (), w') ∧ w'.files.lookup q = some t := by
  obtain ⟨r', hr', hrs, hst⟩ := run_ensureReference_eq_ok _ _ _ hens
  rw [hr, Option.some_inj] at hr'
  subst hr'
  have hk1 : w1.store.lookup k = some ⟨z, m.toDict⟩ := hst ▸ hk
  have hq1 : q.Before w1.nextTemp := by
    have hx := exec_run (E := E) (ensureReference ⟨k.bucket, refPrefix m.refKey⟩ m.refSha256) w
    rw [hens] at hx
    exact hq.mono hx.nextTemp_le
  simp [get, run_bind, hk, fromDict_toDict, Prog.ofExcept, hens, hr, hrs, hk1, hdec,
    run_tryCatch, ht, emit, hst, lookup_removeScratch_of_before _ hq1]

theorem get_delta_ok {k : ObjectKey} {z : Bytes} {m : DeltaMeta} {hit : Bool} {w1 : World}
    {r t : Bytes} (hk : w.store.lookup k = some ⟨z, m.toDict⟩)
    (hens : run E (ensureReference ⟨k.bucket, refPrefix m.refKey⟩ m.refSha256) w = (.ok hit, w1))
    (hr : w1.cache.lookup (k.bucket, refPrefix m.refKey) = some r)
    (hdec : E.decode r z = some t) (ht : E.sha256 t = m.fileSha256) (name : String) :
    ∃ w', run E (get k (.path (.user name))) w = (.ok (), w') ∧
      w'.files.lookup (.user name) = some t :=
  get_delta_ok_path hk hens hr hdec ht (q := .user name) trivial

theorem getDirect_ok {k : ObjectKey} {hd : ObjectHead} {q : LocalPath} {w' : World}
    (h : run E (getDirect k hd (.path q)) w = (.ok (), w')) :
    ∃ o, w.store.lookup k = some o ∧ w' = { w with files := w.files.insert q o.data } ∧
      ∀ e, resolveMetadata hd.metadata "file_sha256" = some e → e ≠ "" → E.sha256 o.data = e := by
  rcases hk : w.store.lookup k with _ | o
  · simp [getDirect, run_bind, hk] at h
  · refine ⟨o, rfl, ?_⟩
    rcases hres : resolveMetadata hd.metadata "file_sha256" with _ | e
    · simp [getDirect, run_bind, emit, hk, hres] at h
      exact ⟨h.symm, nofun⟩
    · by_cases he : e = ""
      · simp [getDirect, run_bind, emit, hk, hres, he] at h
        exact ⟨h.symm, by simp [he]⟩
      · by_cases hs : E.sha256 o.data = e
        · simp [getDirect, run_bind, emit, hk, hres, he, hs] at h
          exact ⟨h.symm, by simp [hs]⟩
        · simp [getDirect, run_bind, emit, hk, hres, he, hs] at h

theorem run_getDirect_mismatch {k : ObjectKey} {o : StoredObject} (hk : w.store.lookup k = some o)
    {s : String} (hs : resolveMetadata o.metadata "file_sha256" = some s) (hne : s ≠ "")
    (hm : E.sha256 o.data ≠ s) (q : LocalPath) :
    run E (getDirect k (o.head k) (.path q)) w =
      (.error (.integrityMismatch ("SHA256 mismatch: expected " ++ s ++ ", got " ++ E.sha256 o.data)),
        { w with files := w.files.insert q o.data }) := by
  simp [getDirect, run_bind, emit, hk, hs, hne, hm]

theorem run_get_direct_mismatch {k : ObjectKey} {o : StoredObject} (hk : w.store.lookup k = some o)
    (hbr : lookup o.metadata "dg-file-sha256" = none ∨ lookup o.metadata "compression" = some "none")
    {s : String} (hs : resolveMetadata o.metadata "file_sha256" = some s) (hne : s ≠ "")
    (hm : E.sha256 o.data ≠ s) (q : LocalPath) :
    run E (get k (.path q)) w =
      (.error (.integrityMismatch ("SHA256 mismatch: expected " ++ s ++ ", got " ++ E.sha256 o.data)),
        { w with files := w.files.insert q o.data }) := by
  have hd := run_getDirect_mismatch (E := E) hk hs hne hm q
  by_cases h' : lookup o.metadata "dg-file-sha256" = none
  · simp [get, run_bind, hk, h', hd]
  · simp [get, run_bind, hk, hbr.resolve_left h', h', hd]

/-- `get` takes its delta branch for `o` and decodes it to `t`: the metadata parses, and the delta
decodes to `t` against the reference `ensure_reference` leaves cached. -/
def DecodesTo (E : Engine) (w : World) (k : ObjectKey) (o : StoredObject) (t : Bytes) : Prop :=
  lookup o.metadata "dg-file-sha256" ≠ none ∧ lookup o.metadata "compression" ≠ some "none" ∧
    ∃ m hit w₁ r, DeltaMeta.fromDict o.metadata = .ok m ∧
      run E (ensureReference ⟨k.bucket, refPrefix m.refKey⟩ m.refSha256) w = (.ok hit, w₁) ∧
      w₁.cache.lookup (k.bucket, refPrefix m.refKey) = some r ∧ E.decode r o.data = some t

/-- The delta branch raises `IntegrityMismatchError` when the decoded bytes lack the recorded
SHA, before anything reaches the sink. -/
theorem run_get_delta_mismatch {k : ObjectKey} {o : StoredObject} (hk : w.store.lookup k = some o)
    {t : Bytes} (hdt : DecodesTo E w k o t) {s : String}
    (hs : resolveMetadata o.metadata "file_sha256" = some s) (ht : E.sha256 t ≠ s) (out : Sink) :
    (run E (get k out) w).1 =
      .error (.integrityMismatch ("SHA256 mismatch: expected " ++ s ++ ", got " ++ E.sha256 t)) := by
  obtain ⟨hdg, hc, m, hit, w₁, r, hm, hens, hr, hdec⟩ := hdt
  obtain rfl : m.fileSha256 = s := Option.some_inj.1 ((fromDict_eq_ok hm).1.symm.trans hs)
  obtain ⟨r', hr', hrs, hst⟩ := run_ensureReference_eq_ok _ _ _ hens
  rw [hr, Option.some_inj] at hr'
  subst hr'
  have hk₁ : w₁.store.lookup k = some o := hst ▸ hk
  simp [get, run_bind, hk, hdg, hc, hm, Prog.ofExcept, hens, hr, hrs, hk₁, hdec, run_tryCatch, ht]

/-- A normal return of `get` into a path outside its temp directories leaves there bytes with the
non-empty `file_sha256` the object records, on each branch. -/
theorem run_get_ok_sha {k : ObjectKey} {o : StoredObject} (hk : w.store.lookup k = some o)
    {s : String} (hs : resolveMetadata o.metadata "file_sha256" = some s) (hne : s ≠ "")
    {q : LocalPath} (hq : q.Before w.nextTemp) {w' : World}
    (h : run E (get k (.path q)) w = (.ok (), w')) :
    ∃ d, w'.files.lookup q = some d ∧ E.sha256 d = s := by
  have direct : ∀ w₁, run E (getDirect k (o.head k) (.path q)) w = (.ok (), w₁) →
      w'.files = w₁.files → ∃ d, w'.files.lookup q = some d ∧ E.sha256 d = s := fun w₁ h he => by
    obtain ⟨o', ho', rfl, hv⟩ := getDirect_ok h
    rw [hk, Option.some_inj] at ho'
    subst ho'
    exact ⟨o.data, by simp [he], hv s (by simpa using hs) hne⟩
  simp only [get, run_bind, run_storageHead, hk, Option.map_some'] at h
  split_ifs at h
  · exact direct w' h rfl
  · -- a direct upload: the `int()` of its `file_size` changes no file
    obtain ⟨_, w₁, h₁, h₂⟩ := run_bind_eq_ok.1 h
    obtain ⟨_, w₂, h₂, h₃⟩ := run_bind_eq_ok.1 h₂
    rw [run_ofExcept, Prod.mk.injEq] at h₂
    obtain ⟨-, rfl⟩ := h₂
    obtain rfl : w₁ = w' := congrArg Prod.snd h₃
    exact direct w₁ h₁ rfl
  · -- the delta branch: the decoded bytes are hashed before they are written
    obtain ⟨m, w₁, h₁, h⟩ := run_bind_eq_ok.1 h
    rw [run_ofExcept, Prod.mk.injEq] at h₁
    obtain ⟨hm, rfl⟩ := h₁
    obtain rfl : m.fileSha256 = s := Option.some_inj.1 ((fromDict_eq_ok hm).1.symm.trans hs)
    obtain ⟨hit, w₂, hens, h₂⟩ := run_bind_eq_ok.1 h
    have hle : w.nextTemp ≤ w₂.nextTemp := by
      have hx := exec_run (E := E) (ensureReference ⟨k.bucket, refPrefix m.refKey⟩ m.refSha256) w
      rw [hens] at hx
      exact hx.nextTemp_le
    obtain ⟨w₃, h₃, rfl⟩ := run_withTemp_eq_ok.1 h₂
    obtain ⟨r, w₄, -, h₄⟩ := run_bind_eq_ok.1 h₃
    obtain ⟨z, w₅, -, h₅⟩ := run_bind_eq_ok.1 h₄
    obtain ⟨t, w₆, -, h₆⟩ := run_bind_eq_ok.1 h₅
    obtain ⟨a, w₇, h₇, h₈⟩ := run_bind_eq_ok.1 h₆
    simp only [run_sha256, Prod.mk.injEq, Except.ok.injEq] at h₇
    obtain ⟨rfl, rfl⟩ := h₇
    by_cases ha : E.sha256 t = m.fileSha256
    · simp [ha, run_bind, emit] at h₈
      subst h₈
      exact ⟨t, by rw [lookup_removeScratch_of_before _ (hq.mono hle)]; simp, ha⟩
    · simp [ha, run_bind] at h₈

/-- `verify` of a delta whose reference is present with the recorded SHA, where a valid cached
copy is that reference and the delta decodes: `get`'s own check raises on a mismatch, so a normal
return always reports `valid`. -/
theorem run_verify_delta {k : ObjectKey} {z t : Bytes} {m : DeltaMeta} {R : StoredObject}
    (hk : w.store.lookup k = some ⟨z, m.toDict⟩)
    (hR : w.store.lookup ⟨k.bucket, DeltaSpace.referenceKey ⟨k.bucket, refPrefix m.refKey⟩⟩ = some R)
    (hRs : E.sha256 R.data = m.refSha256)
    (hc : ∀ c, w.cache.lookup (k.bucket, refPrefix m.refKey) = some c → E.sha256 c = m.refSha256 →
      c = R.data)
    (hdec : E.decode R.data z = some t) :
    (run E (verify k) w).1 =
      if E.sha256 t = m.fileSha256 then .ok ⟨true, m.fileSha256, E.sha256 t, "Integrity verified"⟩
      else .error (.integrityMismatch
        ("SHA256 mismatch: expected " ++ m.fileSha256 ++ ", got " ++ E.sha256 t)) := by
  -- the output file lives under `verify`'s directory, older than those `get` removes
  have h1 : w.nextTemp ≠ w.nextTemp + 1 := by omega
  have h2 : w.nextTemp ≠ w.nextTemp + 1 + 1 := by omega
  cases hit : cacheHas E w.cache k.bucket (refPrefix m.refKey) m.refSha256
  · by_cases ht : E.sha256 t = m.fileSha256 <;>
      simp only [verify, get, Option.isNone_iff_eq_none, Prog.ofExcept, ensureReference,
        Bool.not_eq_eq_eq_not, Bool.not_true, cacheReference, ne_eq, ite_not, emit,
        decide_eq_true_eq, run_withTemp, run_bind, run_storageHead, hk, Option.map_some',
        StoredObject.head_metadata, lookup_toDict_dgFileSha256, reduceCtorEq, ↓reduceIte,
        lookup_toDict_compression, fromDict_toDict, run_pure', run_hasRef, hit, run_mkTemp,
        run_storageGet, hR, run_sha256, hRs, run_pure, run_writeRef, run_rmTemp,
        List.erase_cons_head, run_getValidatedRef, AList.lookup_insert, run_tryCatch, run_decode,
        hdec, ht, run_writeFile, run_readFile, h2, not_false_eq_true, lookup_removeScratch_ne,
        decide_True, run_throw]
  · obtain ⟨c, hl, hcs⟩ := cacheHas_iff.1 hit
    obtain rfl := hc c hl hcs
    by_cases ht : E.sha256 t = m.fileSha256 <;>
      simp only [verify, get, Option.isNone_iff_eq_none, Prog.ofExcept, ensureReference,
        Bool.not_eq_eq_eq_not, Bool.not_true, ne_eq, emit, ite_not, decide_eq_true_eq,
        run_withTemp, run_bind, run_storageHead, hk, Option.map_some', StoredObject.head_metadata,
        lookup_toDict_dgFileSha256, reduceCtorEq, ↓reduceIte, lookup_toDict_compression,
        fromDict_toDict, run_pure', run_hasRef, hit, Bool.true_eq_false, run_pure,
        run_getValidatedRef, hl, hcs, run_storageGet, run_tryCatch, run_decode, hdec, run_sha256,
        ht, run_writeFile, List.erase_cons_head, run_readFile, h1, not_false_eq_true,
        lookup_removeScratch_ne, AList.lookup_insert, decide_True, run_throw]

theorem writes_get {P : ObjectKey → Option StoredObject → Prop} (k : ObjectKey) (out : Sink) :
    Writes P (get k out) := by
  unfold get getDirect emit
  repeat' first
    | exact .pure _
    | exact .throw _
    | exact .perform_none rfl
    | exact .ofExcept _
    | exact (writes_ensureReference _ _).mono fun _ _ => False.elim
    | refine .bind ?_ fun _ => ?_
    | refine .tryCatch ?_ fun _ => ?_
    | refine .withTemp fun _ => ?_
    | refine .tryFinally ?_ ?_
    | split

theorem SinkGuard.emit {n : Nat} {out : Sink} {V : Bytes → Prop} {d : Bytes} (h : V d) :
    SinkGuard E n out V (emit out d) := by
  cases out <;> exact .write h fun r => by cases r <;> constructor

theorem writes_verify {P : ObjectKey → Option StoredObject → Prop} (k : ObjectKey) :
    Writes P (verify k) := by
  unfold verify
  repeat' first
    | exact .pure _
    | exact .throw _
    | exact .perform_none rfl
    | exact .ofExcept _
    | exact writes_get _ _
    | refine .bind ?_ fun _ => ?_
    | refine .withTemp fun _ => ?_
    | refine .tryFinally ?_ ?_
    | split

theorem strict_getDirect (k : ObjectKey) (hd : ObjectHead) (out : Sink) :
    Strict (getDirect k hd out) := by
  unfold getDirect emit
  repeat' first
    | exact .pure _
    | exact .throw _
    | exact .perform _
    | refine .bind ?_ fun _ => ?_
    | split

/-- `get` raises every exception again: its one handler, around the decoder, raises
`DiffDecodeError`. -/
theorem strict_get (k : ObjectKey) (out : Sink) : Strict (get k out) := by
  unfold get emit
  repeat' first
    | exact .pure _
    | exact .throw _
    | exact .perform _
    | exact .ofExcept _
    | exact strict_getDirect _ _ _
    | exact strict_ensureReference _ _
    | refine .withTemp fun _ => ?_
    | refine .tryCatch ?_ fun _ => .throw _
    | refine .bind ?_ fun _ => ?_
    | split

theorem strict_verify (k : ObjectKey) : Strict (verify k) := by
  unfold verify
  repeat' first
    | exact .pure _
    | exact .throw _
    | exact .perform _
    | exact .ofExcept _
    | exact strict_get _ _
    | refine .withTemp fun _ => ?_
    | refine .bind ?_ fun _ => ?_
    | split

theorem run_verify_eq_ok {k : ObjectKey} {res : VerifyResult} {w' : World}
    (h : run E (verify k) w = (.ok res, w')) :
    ∃ o m, w.store.lookup k = some o ∧ DeltaMeta.fromDict o.metadata = .ok m := by
  obtain ⟨w1, h1, -⟩ := run_withTemp_eq_ok.1 h
  obtain ⟨_, w2, hg, h2⟩ := run_bind_eq_ok.1 h1
  have hst : w2.store.lookup k = w.store.lookup k :=
    ((writes_get (P := fun _ _ => False) k _).run_lookup hg k).resolve_right id
  obtain ⟨oh, w3, hh, h3⟩ := run_bind_eq_ok.1 h2
  simp only [run_storageHead, Prod.mk.injEq, Except.ok.injEq] at hh
  obtain ⟨rfl, rfl⟩ := hh
  rcases ho : w2.store.lookup k with _ | o
  · simp [ho] at h3
  · simp only [ho, Option.map_some'] at h3
    obtain ⟨m, w4, hm, -⟩ := run_bind_eq_ok.1 h3
    rw [run_ofExcept, Prod.mk.injEq] at hm
    exact ⟨o, m, hst ▸ ho, hm.1⟩

end Spec

end DeltaService

end DeltaGlider
