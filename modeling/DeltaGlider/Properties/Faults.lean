import DeltaGlider.Properties.Cleanup

/-! # What failing operations leave behind

Each exit of `put`, `get`, `verify` and `delete_recursive` that is not a normal return, stated in
general and then at an input where it shows. -/

namespace DeltaGlider

def RecursiveDeleteResult.classCounts (r : RecursiveDeleteResult) : Nat × Nat × Nat × Nat :=
  (r.deltasDeleted, r.referencesDeleted, r.directDeleted, r.otherDeleted)

namespace DeltaService

variable (svc : DeltaService) {E : Engine}

theorem returns_createDelta_empty (f : LocalFile) (ds : DeltaSpace) (hd : ObjectHead)
    (fs n : String) : Returns (fun _ => False) (svc.createDelta f ds hd fs n 0) := by
  unfold createDelta
  refine .bind (.trivial _) fun _ _ => .bind (.trivial _) fun _ _ => .bind (.trivial _) fun _ _ =>
    .withTemp fun _ => .bind (.trivial _) fun _ _ => ?_
  simp only [if_pos]
  exact .throw _

/-- Every normal return of `put` of an empty delta candidate reports `create_reference`: the file
is never stored as a delta. -/
theorem returns_put_empty (f : LocalFile) (ds : DeltaSpace) (o : Option String)
    (hc : svc.shouldUseDelta (originalNameOf f o) = true) (hf : f.data = []) :
    Returns (·.operation = "create_reference") (svc.put f ds o) := by
  unfold put
  refine .bind (.trivial _) fun _ _ => ?_
  simp only [hc, Bool.not_true]
  refine .bind (.trivial _) fun hd _ => ?_
  cases hd with
  | none =>
    unfold createReference
    exact .bind (.trivial _) fun _ _ => .bind (.trivial _) fun _ _ => .bind (.trivial _) fun _ _ =>
      .bind (.trivial _) fun _ _ => .bind (.trivial _) fun _ _ => .pure rfl
  | some hd =>
    simp only [hf, List.length_nil]
    exact (returns_createDelta_empty svc f ds hd _ _).mono fun _ => False.elim

/-- An empty archive put into `x`, which has a reference: `ZeroDivisionError`. -/
theorem put_empty_archive_divides_by_zero :
    (run sampleEngine (sample.put ⟨"empty.zip", []⟩ ⟨"b", "x"⟩ none) xSpaceWorld).1 =
      .error (.zeroDivision "division by zero") := rfl

/-- `_create_reference` uploads the reference before it encodes the zero-delta, and lets the
encoder's exception through: `put` of a delta candidate into a deltaspace without a reference
raises what the encoder raised, with the reference left in the store. -/
theorem exec_put_encode_fails {w : World} (f : LocalFile) (ds : DeltaSpace) (o : Option String)
    (hc : svc.shouldUseDelta (originalNameOf f o) = true)
    (hr : w.store.lookup ⟨ds.bucket, ds.referenceKey⟩ = none) (e : Error) :
    ∃ w', Exec E (svc.put f ds o) w (.error e) w' ∧
      w'.store = w.store.insert ⟨ds.bucket, ds.referenceKey⟩
        ⟨f.data, (⟨svc.toolVersion, originalNameOf f o, E.sha256 f.data, svc.isoformat w.clock⟩ :
          ReferenceMeta).toDict⟩ := by
  unfold put
  refine ⟨?w, ?hx, ?hs⟩
  case hx =>
    refine Exec.perform_bind rfl ?_
    simp only [hc, Bool.not_true, Bool.false_eq_true, if_false]
    refine Exec.perform_bind (c := .head _) (v := none) (by simp [Call.interp, hr]) ?_
    refine .call <| .call <| .call <| .call <| .call <| .fault e <| .call ?_
    simp only [Call.interp]
    exact .throw e _
  case hs => rfl

/-- `put` of `v1.zip` into the empty deltaspace `x` whose encode raises: the exception is not a
`DiffEncodeError`, and `x/reference.bin` stays without its zero-delta. -/
theorem put_encode_failure_leaves_reference :
    ∃ r w', Exec sampleEngine (sample.put ⟨"v1.zip", [1, 2, 3]⟩ ⟨"b", "x"⟩ none) World.empty r w' ∧
      r = .error (.os "xdelta3: command not found") ∧ World.empty.store.keys = [] ∧
      w'.store.keys = [⟨"b", "x/reference.bin"⟩] :=
  have ⟨w', hx, hs⟩ := exec_put_encode_fails sample (E := sampleEngine) (w := World.empty)
    ⟨"v1.zip", [1, 2, 3]⟩ ⟨"b", "x"⟩ none (by decide) rfl (.os "xdelta3: command not found")
  ⟨_, w', hx, rfl, rfl, by rw [hs]; decide⟩

theorem exec_cacheReference_get_fails (ds : DeltaSpace) (sha : String) (w : World) (e : Error) :
    Exec E (cacheReference ds sha) w (.error e)
      { w with temps := w.nextTemp :: w.temps, nextTemp := w.nextTemp + 1 } :=
  .call (.fault e (.throw e _))

/-- `put` of a delta candidate into a deltaspace whose reference is not cached raises what the
read of the reference raises, with `_cache_reference`'s temporary file left registered. -/
theorem exec_put_download_fails {w : World} (f : LocalFile) (ds : DeltaSpace) (o : Option String)
    (hc : svc.shouldUseDelta (originalNameOf f o) = true) {R : StoredObject}
    (hR : w.store.lookup ⟨ds.bucket, ds.referenceKey⟩ = some R) {X : String}
    (hX : resolveMetadata R.metadata "file_sha256" = some X) (hne : X ≠ "")
    (hmiss : cacheHas E w.cache ds.bucket ds.keyPrefix X = false) (e : Error) :
    Exec E (svc.put f ds o) w (.error e)
      { w with temps := w.nextTemp :: w.temps, nextTemp := w.nextTemp + 1 } := by
  unfold put
  refine Exec.perform_bind rfl ?_
  simp only [hc, Bool.not_true, Bool.false_eq_true, if_false]
  refine Exec.perform_bind (c := .head ⟨ds.bucket, ds.referenceKey⟩)
    (v := some (R.head ⟨ds.bucket, ds.referenceKey⟩)) (by simp [Call.interp, hR]) ?_
  unfold createDelta
  simp only [requireRefSha, StoredObject.head_metadata, hX, hne, ne_eq, not_false_eq_true, if_true]
  refine Exec.bind_error (p := ensureReference ds X) ?_
  unfold ensureReference
  refine Exec.perform_bind (c := .hasRef _ _ _) (v := false) (by simp [Call.interp, hmiss]) ?_
  exact Exec.bind_error (exec_cacheReference_get_fails ds X w e)

/-- `put` of `b.zip` into `x` from a client with an empty cache, whose download of the reference
fails: `_cache_reference`'s temporary file is left behind. -/
theorem put_reference_failure_leaks_temp :
    ∃ r w', Exec sampleEngine (sample.put ⟨"b.zip", [1, 2]⟩ ⟨"b", "x"⟩ none)
        { xSpaceWorld with cache := ∅ } r w' ∧
      r = .error (.storage "injected failure") ∧ xSpaceWorld.temps = [] ∧ w'.temps ≠ [] :=
  ⟨_, _, exec_put_download_fails sample (w := { xSpaceWorld with cache := ∅ }) ⟨"b.zip", [1, 2]⟩
    ⟨"b", "x"⟩ none (by decide) rfl rfl (by decide) (by decide) (.storage "injected failure"),
    rfl, rfl, List.cons_ne_nil _ _⟩

def corruptDeltaMeta : DeltaMeta :=
  { tool := "deltaglider/test", originalName := "b.zip", fileSha256 := "sha-9", fileSize := 3,
    createdAt := "0", refKey := "x/reference.bin", refSha256 := "sha-3", deltaSize := 3,
    deltaCmd := deltaCmd "b.zip", note := none }

def corruptDeltaWorld : World :=
  { xSpaceWorld with
    store := xSpaceWorld.store.insert ⟨"b", "x/b.zip.delta"⟩ ⟨[1, 2, 3], corruptDeltaMeta.toDict⟩ }

def tamperedWorld : World :=
  { World.empty with
    store := (∅ : Store).insert ⟨"b", "f.bin"⟩ ⟨[1, 2, 3], [("file_sha256", "sha-5")]⟩
    files := (∅ : Files).insert (.user "out") [9] }

/-- `get`'s own check raises before `verify` can compare the SHAs: over a delta whose reference is
present with the recorded SHA and which decodes, `verify` never reports `valid = false`. -/
theorem verify_delta_never_invalid {w : World} {k : ObjectKey} {z t : Bytes} {m : DeltaMeta}
    {R : StoredObject} (hk : w.store.lookup k = some ⟨z, m.toDict⟩)
    (hR : w.store.lookup ⟨k.bucket, DeltaSpace.referenceKey ⟨k.bucket, refPrefix m.refKey⟩⟩ = some R)
    (hRs : E.sha256 R.data = m.refSha256)
    (hc : ∀ c, w.cache.lookup (k.bucket, refPrefix m.refKey) = some c → E.sha256 c = m.refSha256 →
      c = R.data)
    (hdec : E.decode R.data z = some t) :
    (∀ res, (run E (verify k) w).1 = .ok res → res.valid = true) ∧
    (E.sha256 t ≠ m.fileSha256 → (run E (verify k) w).1 =
      .error (.integrityMismatch ("SHA256 mismatch: expected " ++ m.fileSha256 ++ ", got " ++
        E.sha256 t))) := by
  rw [run_verify_delta hk hR hRs hc hdec]
  split_ifs with h
  · exact ⟨fun _ hres => by cases hres; rfl, fun h' => absurd h h'⟩
  · exact ⟨fun _ hres => (by cases hres), fun _ => rfl⟩

/-- `verify` of that delta, whose reference is present with the recorded SHA and which decodes,
raises instead of reporting `valid = false`. -/
theorem verify_corrupt_delta_raises :
    (run sampleEngine (verify ⟨"b", "x/b.zip.delta"⟩) corruptDeltaWorld).1 =
      .error (.integrityMismatch "SHA256 mismatch: expected sha-9, got sha-3") := by
  obtain ⟨R, hR, hRd⟩ : ∃ R, corruptDeltaWorld.store.lookup
      ⟨"b", DeltaSpace.referenceKey ⟨"b", refPrefix "x/reference.bin"⟩⟩ = some R ∧
      R.data = [1, 2, 3] := ⟨_, rfl, rfl⟩
  have hc : corruptDeltaWorld.cache.lookup ("b", refPrefix "x/reference.bin") = some [1, 2, 3] :=
    rfl
  exact (verify_delta_never_invalid (E := sampleEngine) (w := corruptDeltaWorld)
    (m := corruptDeltaMeta) (AList.lookup_insert _) hR (by rw [hRd]; rfl)
    (fun c h _ => hRd ▸ Option.some_inj.1 (h.symm.trans hc)) (by rw [hRd]; rfl)).2 (by decide)

theorem returns_deleteEach_counts (b : String) : ∀ keys (result : RecursiveDeleteResult),
    Returns (fun r => r.deletedCount + r.failedCount = result.deletedCount + result.failedCount +
      keys.length ∧ r.classCounts = result.classCounts) (deleteEach b keys result)
  | [], _ => .pure ⟨rfl, rfl⟩
  | k :: rest, result => by
    rw [deleteEach]
    refine .bind (Q := fun r => r.deletedCount + r.failedCount =
        result.deletedCount + result.failedCount + 1 ∧ r.classCounts = result.classCounts)
      (.tryCatch (.bind (.trivial _) fun _ _ => .pure ⟨by simp; omega, rfl⟩)
        fun _ => .pure ⟨by simp; omega, rfl⟩) fun r hr => ?_
    refine (returns_deleteEach_counts b rest r).mono fun r' h => ⟨?_, h.2.trans hr.2⟩
    simp only [List.length_cons]
    omega

theorem returns_deleteReferencesIfSafe_counts (b np : String) :
    ∀ refs kept (result : RecursiveDeleteResult),
      Returns (fun p : Nat × RecursiveDeleteResult => p.2.deletedCount + p.2.failedCount + p.1 =
          result.deletedCount + result.failedCount + kept + refs.length ∧
        p.1 ≤ kept + refs.length ∧ p.2.classCounts = result.classCounts)
        (deleteReferencesIfSafe b np refs kept result)
  | [], _, _ => .pure ⟨rfl, le_rfl, rfl⟩
  | r :: rest, kept, result => by
    rw [deleteReferencesIfSafe]
    refine .bind (Q := fun p : Nat × RecursiveDeleteResult => p.2.deletedCount + p.2.failedCount +
        p.1 = result.deletedCount + result.failedCount + kept + 1 ∧ p.1 ≤ kept + 1 ∧
        p.2.classCounts = result.classCounts)
      (.tryCatch (.bind (.trivial _) fun _ _ => ?_) fun _ => .pure ⟨by simp; omega, by omega, rfl⟩)
      fun ⟨k', r'⟩ hp => ?_
    · split
      · exact .bind (.trivial _) fun _ _ => .pure ⟨by simp; omega, by omega, rfl⟩
      · exact .pure ⟨by simp; omega, by omega, rfl⟩
    · dsimp only at hp
      refine (returns_deleteReferencesIfSafe_counts b np rest k' r').mono fun p h =>
        ⟨?_, ?_, h.2.2.trans hp.2.2⟩ <;> simp only [List.length_cons] <;> omega

/-- The class counts of `delete_recursive`'s report are set from its classification before anything
is deleted: whichever deletes raise, they add up to the deletes that succeeded plus those that
raised. -/
theorem returns_deleteRecursive_counts (b p : String) :
    Returns (fun res : RecursiveDeleteResult => res.deltasDeleted + res.referencesDeleted +
      res.directDeleted + res.otherDeleted = res.deletedCount + res.failedCount)
      (deleteRecursive b p) := by
  unfold deleteRecursive
  refine .bind (.trivial _) fun c _ => .bind (.trivial _) fun refs _ => ?_
  refine .bind (returns_deleteEach_counts b _ _) fun r1 h1 =>
    .bind (returns_deleteReferencesIfSafe_counts b _ refs 0 r1) fun ⟨kept, r2⟩ h2 => ?_
  dsimp only at h2
  have hc := h2.2.2.trans h1.2
  simp only [RecursiveDeleteResult.classCounts, Prod.mk.injEq] at hc
  have hs : r2.deltasDeleted + (r2.referencesDeleted - kept) + r2.directDeleted + r2.otherDeleted =
      r2.deletedCount + r2.failedCount := by
    simp only [List.length_append] at h1
    omega
  dsimp only
  split
  · exact .bind (.tryCatch (.trivial _) fun _ => .trivial _) fun _ _ => .pure hs
  · exact .bind (.trivial _) fun _ _ => .pure hs

/-- `delete_recursive` of `x` whose delete of `x/a.zip.delta` fails: the report counts the delta as
deleted, so the class counts add up to two while one object was removed. -/
theorem deleteRecursive_report_counts_failed_delta :
    ∃ r w', Exec sampleEngine (deleteRecursive "b" "x") xSpaceWorld r w' ∧
      r = .ok
        { bucket := "b", keyPrefix := "x/", deletedCount := 1, failedCount := 1,
          deltasDeleted := 1, referencesDeleted := 1,
          errors := ["Failed to delete x/a.zip.delta: injected failure"] } ∧
      (w'.store.lookup ⟨"b", "x/a.zip.delta"⟩).isSome :=
  ⟨_, _, exec_runFaulting failsOnDelta (.storage "injected failure") _ _, rfl, by decide⟩

end DeltaService

end DeltaGlider
