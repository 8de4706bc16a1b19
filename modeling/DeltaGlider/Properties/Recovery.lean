import DeltaGlider.Properties.GoodStore
import DeltaGlider.Properties.Races

/-! # Every delta can be read back

With a collision-free hasher and an engine that decodes what it encodes. -/

namespace DeltaGlider

namespace DeltaService

variable (svc : DeltaService) {E : Engine}

/-- An object recording a reference is a delta whose metadata `DeltaMeta.fromDict` reads, and it
decodes against any bytes with the reference SHA it records to bytes with the file SHA it
records. -/
def DecodesWith (E : Engine) (o : StoredObject) : Prop :=
  ∀ rk, resolveMetadata o.metadata "ref_key" = some rk →
    ∃ (m : DeltaMeta) (t : Bytes), o.metadata = m.toDict ∧ E.sha256 t = m.fileSha256 ∧
      ∀ r, E.sha256 r = m.refSha256 → E.decode r o.data = some t

def Decodable (E : Engine) (s : Store) : Prop :=
  ∀ key o, s.lookup key = some o → DecodesWith E o

theorem decodesWith_of_refKey_none {o : StoredObject}
    (h : resolveMetadata o.metadata "ref_key" = none) : DecodesWith E o :=
  fun _ hrk => by rw [h] at hrk; cases hrk

theorem decodesWith_delta (hinj : Function.Injective E.sha256)
    (hdiff : ∀ r t d, E.encode r t = some d → E.decode r d = some t) {v t d : Bytes}
    {m : DeltaMeta} (hd : E.encode v t = some d) (hrs : m.refSha256 = E.sha256 v)
    (ht : m.fileSha256 = E.sha256 t) : DecodesWith E ⟨d, m.toDict⟩ :=
  fun _ _ => ⟨m, t, rfl, ht.symm, fun _ hr => hinj (hr.trans hrs) ▸ hdiff _ _ _ hd⟩

section Store

variable {s s' : Store}

theorem Decodable.empty : Decodable E ∅ := fun _ _ ho => by simp at ho

theorem Decodable.of_lookup (h : Decodable E s)
    (hf : ∀ k, s'.lookup k = s.lookup k ∨ ∀ o, s'.lookup k = some o → DecodesWith E o) :
    Decodable E s' :=
  fun k o ho => (hf k).elim (fun e => h k o (e.symm.trans ho)) (· o ho)

theorem Decodable.insert (h : Decodable E s) {k : ObjectKey} {o : StoredObject}
    (ho : DecodesWith E o) : Decodable E (s.insert k o) :=
  h.of_lookup fun k' => by
    by_cases e : k' = k
    · subst e; exact .inr fun o' h' => by rw [AList.lookup_insert, Option.some_inj] at h'; exact h' ▸ ho
    · exact .inl (AList.lookup_insert_ne e)

theorem Decodable.exec_writes {α : Type} {P : ObjectKey → Option StoredObject → Prop} {p : Prog α}
    (hp : Writes P p) (hP : ∀ k v, P k v → ∀ o, v = some o → DecodesWith E o) {w w' : World}
    {r : Except Error α} (hx : Exec E p w r w') (h : Decodable E w.store) : Decodable E w'.store :=
  h.of_lookup fun k => (hp.lookup hx k).imp_right (hP k _)

end Store

section Put

variable {w : World} (f : LocalFile) (ds : DeltaSpace) (n : String) (size : Nat)

theorem keeps_createDelta_decodable (hinj : Function.Injective E.sha256)
    (hdiff : ∀ r t d, E.encode r t = some d → E.decode r d = some t) (hd : ObjectHead)
    (h : Decodable E w.store) :
    Keeps E (Decodable E) (svc.createDelta f ds hd (E.sha256 f.data) n size) w := by
  have hc : ∀ s s' : Store, (∀ k, s'.lookup k = s.lookup k) → Decodable E s → Decodable E s' :=
    fun _ _ he hs => hs.of_lookup fun k => .inl (he k)
  unfold createDelta
  refine Keeps.bind (Keeps.of_writes_none (writes_requireRefSha _) h hc) fun rs _ h => ?_
  refine Keeps.bind (Keeps.of_writes_none (writes_ensureReference ds rs) h hc) fun _ _ h => ?_
  refine Keeps.read_bind_ok rfl h fun v hv h => Keeps.withTemp h fun _ _ h => ?_
  refine Keeps.tryCatch_read_bind rfl h (fun d hd h => ?_) fun _ _ h => h
  split
  · exact h
  refine Keeps.read_bind rfl h fun _ _ h => Keeps.perform_bind h ?_ fun _ _ => ?_
  all_goals exact h.insert (decodesWith_delta hinj hdiff (Call.interp_encode_ok hd)
    (Call.interp_getValidatedRef_ok hv).symm rfl)

theorem keeps_createReference_decodable (hinj : Function.Injective E.sha256)
    (hdiff : ∀ r t d, E.encode r t = some d → E.decode r d = some t) (h : Decodable E w.store) :
    Keeps E (Decodable E) (svc.createReference f ds (E.sha256 f.data) n size) w := by
  unfold createReference
  refine Keeps.perform_bind h h fun t _ => ?_
  have h1 : Decodable E (w.store.insert ⟨ds.bucket, ds.referenceKey⟩
      ⟨f.data, (⟨svc.toolVersion, n, E.sha256 f.data, svc.isoformat t⟩ : ReferenceMeta).toDict⟩) :=
    h.insert (decodesWith_of_refKey_none (resolveMetadata_refToDict _).2)
  refine Keeps.perform_bind h h1 fun _ _ => Keeps.perform_bind h1 h1 fun rh hrh => ?_
  simp only [Call.interp, AList.lookup_insert, Option.map_some', Except.ok.injEq] at hrh
  subst hrh
  refine Keeps.perform_bind h1 h1 fun _ _ => ?_
  refine Keeps.bind (Keeps.withTemp h1 fun _ _ h => ?_) fun _ _ h => h
  refine Keeps.read_bind_ok rfl h fun z hz h => Keeps.read_bind rfl h fun _ _ h => Keeps.perform h ?_
  exact h.insert (decodesWith_delta hinj hdiff (Call.interp_encode_ok hz) (by simp) rfl)

end Put

variable {w w' : World}

/-- Every operation, in every execution, and every change outside the store keeps each object
decodable: `put` writes deltas that decode, or objects recording no reference, and the other
operations only delete or write objects recording no reference. -/
theorem Step.decodable (hinj : Function.Injective E.sha256)
    (hdiff : ∀ r t d, E.encode r t = some d → E.decode r d = some t) (hs : Step E svc w w')
    (h : Decodable E w.store) : Decodable E w'.store := by
  have hnone : ∀ (_ : ObjectKey) (v : Option StoredObject), v = none → ∀ o, v = some o →
      DecodesWith E o :=
    fun _ _ hv o ho => absurd (hv.symm.trans ho) nofun
  cases hs with
  | put hx =>
    rcases exec_put_cases svc _ _ _ hx with rfl | ⟨-, hx⟩ | ⟨-, -, hx⟩ | ⟨-, _, -, hx⟩
    · exact h
    · exact h.exec_writes (writes_uploadDirect svc _ _ _ _ _)
        (fun _ _ hv o ho => decodesWith_of_refKey_none (hv.2 o ho).2.2.1) hx
    · exact (keeps_createReference_decodable svc _ _ _ _ hinj hdiff h).exec hx
    · exact (keeps_createDelta_decodable svc _ _ _ _ hinj hdiff _ h).exec hx
  | get hx => exact h.exec_writes (writes_get (P := fun _ _ => False) _ _) (fun _ _ => False.elim) hx
  | verify hx => exact h.exec_writes (writes_verify (P := fun _ _ => False) _) (fun _ _ => False.elim) hx
  | delete hx => exact h.exec_writes (writes_delete _) hnone hx
  | deleteRecursive hx =>
    exact h.exec_writes (writes_deleteRecursive _ _) (fun k v hv => hnone k v hv.1) hx
  | rehydrateForDownload hx =>
    exact h.exec_writes (svc.writes_rehydrateForDownload _ _ _)
      (fun _ _ hv o ho => decodesWith_of_refKey_none (hv.2 o ho).1) hx
  | purgeTempFiles hx => exact h.exec_writes (svc.writes_purgeTempFiles _) hnone hx
  | env he => exact h.of_lookup fun k => .inl (by rw [he])

theorem Reachable.decodable (hinj : Function.Injective E.sha256)
    (hdiff : ∀ r t d, E.encode r t = some d → E.decode r d = some t) (h : Reachable E svc w) :
    Decodable E w.store := by
  induction h with
  | init he => exact he ▸ Decodable.empty
  | step _ hs ih => exact hs.decodable svc hinj hdiff ih

/-- In every reachable store every object recording a reference decodes, against any bytes with
the reference SHA it records, to bytes with the file SHA it records. -/
theorem reachable_decodable (hinj : Function.Injective E.sha256)
    (hdiff : ∀ r t d, E.encode r t = some d → E.decode r d = some t) (h : Reachable E svc w) :
    Decodable E w.store :=
  Reachable.decodable svc hinj hdiff h

def exactOneWorld : World :=
  (run exactEngine (sample.put ⟨"a.zip", [1, 2, 3]⟩ ⟨"b", "x"⟩ none) World.empty).2

def exactRefNamedWorld : World :=
  (run exactEngine (sample.put ⟨"reference.bin", [9, 9]⟩ ⟨"b", "x"⟩ none) exactOneWorld).2

theorem reachable_decodable_refNamed :
    Function.Injective exactEngine.sha256 ∧
    (∀ r t d, exactEngine.encode r t = some d → exactEngine.decode r d = some t) ∧
    Reachable exactEngine sample exactRefNamedWorld ∧ Decodable exactEngine exactRefNamedWorld.store :=
  have hr : Reachable exactEngine sample exactRefNamedWorld :=
    .step (.step (.init rfl) (.put (exec_run _ _))) (.put (exec_run _ _))
  ⟨byteHash_injective, Engine.copy_decode_encode _, hr,
    reachable_decodable sample byteHash_injective (Engine.copy_decode_encode _) hr⟩

theorem SafeReachable.inv (h : SafeReachable E svc w) : Inv E w.store := by
  induction h with
  | init he => exact he ▸ Inv.empty
  | step _ hs ih => exact hs.inv svc ih
  | env _ he ih => exact ih.congr fun k => by rw [he]

/-- In a valid, good store whose objects decode, `get` of a delta returns normally whatever the
cache holds, leaving at the path bytes with the file SHA the delta records, and `verify` reports
it valid: a cached copy with the reference's SHA is the reference. -/
theorem delta_readable (hinj : Function.Injective E.sha256) (hv : Valid E w.store)
    (hg : Good E w.store) (hd : Decodable E w.store) {k : ObjectKey} {o : StoredObject}
    {rk rs : String} (hk : w.store.lookup k = some o)
    (hrk : resolveMetadata o.metadata "ref_key" = some rk)
    (hrs : resolveMetadata o.metadata "ref_sha256" = some rs) {q : LocalPath}
    (hq : q.Before w.nextTemp) :
    ∃ fs, resolveMetadata o.metadata "file_sha256" = some fs ∧
      (run E (verify k) w).1 = .ok ⟨true, fs, fs, "Integrity verified"⟩ ∧
      ∃ w' t, run E (get k (.path q)) w = (.ok (), w') ∧
        w'.files.lookup q = some t ∧ E.sha256 t = fs := by
  obtain ⟨m, t, hmd, ht, hdec⟩ := hd k o hk rk hrk
  obtain ⟨ref, href, -, hsha⟩ := hg k o rk rs hk hrk hrs
  obtain ⟨ds, n, rfl, rfl⟩ := hv.wf _ o hk rk hrk
  obtain ⟨z, md⟩ := o
  dsimp only at hmd hdec hrk hrs hk
  subst hmd
  simp only [resolveMetadata_toDict, Option.some_inj] at hrk hrs
  subst hrs
  have hp : refPrefix m.refKey = ds.keyPrefix := by rw [hrk, refPrefix_referenceKey]
  refine ⟨m.fileSha256, (resolveMetadata_toDict m).1, ?_, ?_⟩
  · rw [run_verify_delta hk (by rw [hp]; exact href) hsha (fun c _ hc => hinj (hc.trans hsha.symm))
      (hdec _ hsha), if_pos ht, ht]
  · -- the reference is cached on a miss; on a hit the cached copy is the reference
    obtain ⟨hit, w1, hens, hr⟩ : ∃ hit w1,
        run E (ensureReference ⟨ds.bucket, refPrefix m.refKey⟩ m.refSha256) w = (.ok hit, w1) ∧
          w1.cache.lookup (ds.bucket, refPrefix m.refKey) = some ref.data := by
      rw [hp]
      cases hc : cacheHas E w.cache ds.bucket ds.keyPrefix m.refSha256
      · exact ⟨false, _, run_ensureReference_miss ds _ hc href hsha, AList.lookup_insert _⟩
      · obtain ⟨c, hl, hcs⟩ := cacheHas_iff.1 hc
        exact ⟨true, w, run_ensureReference_hit ds _ hc,
          hl.trans (congrArg some (hinj (hcs.trans hsha.symm)))⟩
    obtain ⟨w', hget, hfile⟩ := get_delta_ok_path hk hens hr (hdec _ hsha) ht hq
    exact ⟨w', t, hget, hfile, ht⟩

/-- In every store reached by safe operations, `get` of any delta returns normally whatever the
cache holds, leaving bytes with the file SHA the delta records, and `verify` reports it valid. -/
theorem safeReachable_delta_readable (hinj : Function.Injective E.sha256)
    (hdiff : ∀ r t d, E.encode r t = some d → E.decode r d = some t) (h : SafeReachable E svc w)
    {k : ObjectKey} {o : StoredObject} {rk rs : String} (hk : w.store.lookup k = some o)
    (hrk : resolveMetadata o.metadata "ref_key" = some rk)
    (hrs : resolveMetadata o.metadata "ref_sha256" = some rs) (name : String) :
    ∃ fs, resolveMetadata o.metadata "file_sha256" = some fs ∧
      (run E (verify k) w).1 = .ok ⟨true, fs, fs, "Integrity verified"⟩ ∧
      ∃ w' t, run E (get k (.path (.user name))) w = (.ok (), w') ∧
        w'.files.lookup (.user name) = some t ∧ E.sha256 t = fs :=
  have hI := SafeReachable.inv svc h
  delta_readable hinj hI.valid hI.good
    (Reachable.decodable svc hinj hdiff (SafeReachable.reachable svc h)) hk hrk hrs (q := .user name) trivial

def exactTwoWorld : World :=
  (run exactEngine (sample.put ⟨"b.zip", [1, 2]⟩ ⟨"b", "x"⟩ none) exactOneWorld).2

theorem exactOneWorld_safeReachable : SafeReachable exactEngine sample exactOneWorld :=
  .step (.init rfl) (.put (by decide) (exec_run _ _))

theorem exactTwoWorld_safeReachable : SafeReachable exactEngine sample exactTwoWorld :=
  .step exactOneWorld_safeReachable (.put (by decide) (exec_run _ _))

def exactTwoDelta : StoredObject :=
  (exactTwoWorld.store.lookup ⟨"b", "x/b.zip.delta"⟩).getD ⟨[], []⟩

theorem exactTwoWorld_lookup_delta :
    exactTwoWorld.store.lookup ⟨"b", "x/b.zip.delta"⟩ = some exactTwoDelta := rfl

theorem exactTwoDelta_refKey :
    resolveMetadata exactTwoDelta.metadata "ref_key" = some "x/reference.bin" := by decide

theorem exactTwoDelta_readable (name : String) :
    ∃ fs, resolveMetadata exactTwoDelta.metadata "file_sha256" = some fs ∧
      (run exactEngine (verify ⟨"b", "x/b.zip.delta"⟩) exactTwoWorld).1 =
        .ok ⟨true, fs, fs, "Integrity verified"⟩ ∧
      ∃ w' t, run exactEngine (get ⟨"b", "x/b.zip.delta"⟩ (.path (.user name))) exactTwoWorld =
          (.ok (), w') ∧ w'.files.lookup (.user name) = some t ∧ exactEngine.sha256 t = fs :=
  have hI := SafeReachable.inv sample exactTwoWorld_safeReachable
  have hrs : resolveMetadata exactTwoDelta.metadata "ref_sha256" = some (byteHash [1, 2, 3]) := by
    decide
  delta_readable byteHash_injective hI.valid hI.good
    (Reachable.decodable sample byteHash_injective (Engine.copy_decode_encode _)
      (SafeReachable.reachable sample exactTwoWorld_safeReachable))
    exactTwoWorld_lookup_delta exactTwoDelta_refKey hrs (q := .user name) trivial

theorem safeReachable_delta_readable_sample :
    SafeReachable exactEngine sample exactTwoWorld ∧
    exactTwoWorld.store.lookup ⟨"b", "x/b.zip.delta"⟩ = some exactTwoDelta ∧
    resolveMetadata exactTwoDelta.metadata "ref_key" = some "x/reference.bin" ∧
    resolveMetadata exactTwoDelta.metadata "ref_sha256" = some (byteHash [1, 2, 3]) ∧
    ∃ fs, resolveMetadata exactTwoDelta.metadata "file_sha256" = some fs ∧
      (run exactEngine (verify ⟨"b", "x/b.zip.delta"⟩) exactTwoWorld).1 =
        .ok ⟨true, fs, fs, "Integrity verified"⟩ ∧
      ∃ w' t, run exactEngine (get ⟨"b", "x/b.zip.delta"⟩ (.path (.user "b.zip"))) exactTwoWorld =
          (.ok (), w') ∧ w'.files.lookup (.user "b.zip") = some t ∧ exactEngine.sha256 t = fs :=
  have hrs : resolveMetadata exactTwoDelta.metadata "ref_sha256" = some (byteHash [1, 2, 3]) := by
    decide
  ⟨exactTwoWorld_safeReachable, exactTwoWorld_lookup_delta, exactTwoDelta_refKey, hrs,
    safeReachable_delta_readable sample byteHash_injective (Engine.copy_decode_encode _)
      exactTwoWorld_safeReachable exactTwoWorld_lookup_delta exactTwoDelta_refKey hrs "b.zip"⟩

theorem exec_verify_valid (hinj : Function.Injective E.sha256)
    (hdiff : ∀ r t d, E.encode r t = some d → E.decode r d = some t) (h : SafeReachable E svc w)
    {k : ObjectKey} {res : VerifyResult} {w' : World} (hx : Exec E (verify k) w (.ok res) w') :
    res.valid = true ∧ res.expectedSha256 = res.actualSha256 := by
  have hrun := (strict_verify k).exec_ok hx
  obtain ⟨o, m, ho, hm⟩ := run_verify_eq_ok hrun
  obtain ⟨-, hrk, hrs⟩ := fromDict_eq_ok hm
  have hI := SafeReachable.inv svc h
  obtain ⟨fs, -, hv, -⟩ := delta_readable hinj hI.valid hI.good
    (Reachable.decodable svc hinj hdiff (SafeReachable.reachable svc h)) ho hrk hrs (q := .user "") trivial
  rw [hrun, Except.ok.injEq] at hv
  subst hv
  exact ⟨rfl, rfl⟩

/-- In every store reached by safe operations, `verify` never reports a failed check: every
execution that returns normally, faults included, reports `valid` with equal SHAs. Its result
`valid = False` is out of reach; a corrupt object makes `get` or `from_dict` raise instead. -/
theorem safeReachable_verify_valid (hinj : Function.Injective E.sha256)
    (hdiff : ∀ r t d, E.encode r t = some d → E.decode r d = some t) (h : SafeReachable E svc w)
    {k : ObjectKey} {res : VerifyResult} {w' : World} (hx : Exec E (verify k) w (.ok res) w') :
    res.valid = true ∧ res.expectedSha256 = res.actualSha256 :=
  exec_verify_valid svc hinj hdiff h hx

theorem safeReachable_verify_valid_sample :
    SafeReachable exactEngine sample exactTwoWorld ∧
    ∃ res w', Exec exactEngine (verify ⟨"b", "x/b.zip.delta"⟩) exactTwoWorld (.ok res) w' ∧
      res.valid = true ∧ res.expectedSha256 = res.actualSha256 := by
  obtain ⟨fs, -, hv, -⟩ := exactTwoDelta_readable ""
  have hx := exec_run (E := exactEngine) (verify ⟨"b", "x/b.zip.delta"⟩) exactTwoWorld
  rw [hv] at hx
  exact ⟨exactTwoWorld_safeReachable, _, _, hx, safeReachable_verify_valid sample byteHash_injective
    (Engine.copy_decode_encode _) exactTwoWorld_safeReachable hx⟩

end DeltaService

end DeltaGlider
