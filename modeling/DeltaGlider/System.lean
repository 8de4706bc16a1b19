import DeltaGlider.Service.Delete
import DeltaGlider.Service.Rehydrate

/-! # The service over a sequence of operations

Any call may raise, and between operations the world outside the store may change. -/

namespace DeltaGlider

namespace DeltaService

variable {E : Engine} (svc : DeltaService) {w w' : World}

/-- One operation of the service, in any of its executions, or a change outside the store. -/
inductive Step (E : Engine) (svc : DeltaService) : World → World → Prop
  | put {f ds o w r w'} : Exec E (svc.put f ds o) w r w' → Step E svc w w'
  | get {k out w r w'} : Exec E (get k out) w r w' → Step E svc w w'
  | verify {k w r w'} : Exec E (verify k) w r w' → Step E svc w w'
  | delete {k w r w'} : Exec E (delete k) w r w' → Step E svc w w'
  | deleteRecursive {b p w r w'} : Exec E (deleteRecursive b p) w r w' → Step E svc w w'
  | rehydrateForDownload {b k e w r w'} :
      Exec E (svc.rehydrateForDownload b k e) w r w' → Step E svc w w'
  | purgeTempFiles {b w r w'} : Exec E (svc.purgeTempFiles b) w r w' → Step E svc w w'
  | env {w w'} : w'.store = w.store → Step E svc w w'

inductive Reachable (E : Engine) (svc : DeltaService) : World → Prop
  | init {w} : w.store = ∅ → Reachable E svc w
  | step {w w'} : Reachable E svc w → Step E svc w w' → Reachable E svc w'

/-- An object recording a `ref_key` is a delta of some deltaspace, at one of its delta keys, and
the `ref_key` is that deltaspace's reference. -/
def ObjectWF (key : ObjectKey) (o : StoredObject) : Prop :=
  ∀ rk, resolveMetadata o.metadata "ref_key" = some rk →
    ∃ (ds : DeltaSpace) (n : String), key = ⟨ds.bucket, ds.deltaKey n⟩ ∧ rk = ds.referenceKey

def StoreWF (s : Store) : Prop := ∀ key o, s.lookup key = some o → ObjectWF key o

def WFWrite (key : ObjectKey) (v : Option StoredObject) : Prop := ∀ o, v = some o → ObjectWF key o

def Sound (E : Engine) (s : Store) : Prop :=
  ∀ key o fs, s.lookup key = some o → resolveMetadata o.metadata "ref_key" = none →
    resolveMetadata o.metadata "file_sha256" = some fs → E.sha256 o.data = fs

def NoExpiringRef (s : Store) : Prop :=
  ∀ key o, s.lookup key = some o → IsReferenceKey key.key → lookup o.metadata "dg-expires-at" = none

/-- What every reachable store satisfies. -/
structure Valid (E : Engine) (s : Store) : Prop where
  wf : StoreWF s
  sound : Sound E s
  noExpiringRef : NoExpiringRef s

structure ValidWrite (E : Engine) (key : ObjectKey) (v : Option StoredObject) : Prop where
  wf : WFWrite key v
  sound : ∀ o, v = some o → resolveMetadata o.metadata "ref_key" = none →
    ∀ fs, resolveMetadata o.metadata "file_sha256" = some fs → E.sha256 o.data = fs
  noExpiringRef : IsReferenceKey key.key → ∀ o, v = some o → lookup o.metadata "dg-expires-at" = none

theorem validWrite_of_none {key : ObjectKey} {v : Option StoredObject} (h : v = none) :
    ValidWrite E key v := by
  subst h; exact ⟨nofun, nofun, fun _ => nofun⟩

theorem validWrite_of_plain {key : ObjectKey} {v : Option StoredObject} {data : Bytes}
    (h : ∀ o, v = some o → PlainWrite data (E.sha256 data) o) : ValidWrite E key v where
  wf o ho rk hrk := by simp [(h o ho).2.2.1] at hrk
  sound o ho _ fs hfs := by
    obtain ⟨rfl, hs, -⟩ := h o ho
    exact Option.some_inj.1 (hs.symm.trans hfs)
  noExpiringRef _ o ho := (h o ho).2.2.2

theorem validWrite_of_bare {key : ObjectKey} {v : Option StoredObject} (hk : ¬IsReferenceKey key.key)
    (h : ∀ o, v = some o → resolveMetadata o.metadata "ref_key" = none ∧
      resolveMetadata o.metadata "file_sha256" = none) : ValidWrite E key v :=
  ⟨fun o ho rk hrk => by simp [(h o ho).1] at hrk, fun o ho _ fs hfs => by simp [(h o ho).2] at hfs,
    fun hr => absurd hr hk⟩

theorem validWrite_delta {ds : DeltaSpace} {n : String} {v : Option StoredObject}
    (h : ∀ o, v = some o → resolveMetadata o.metadata "ref_key" = some ds.referenceKey) :
    ValidWrite E ⟨ds.bucket, ds.deltaKey n⟩ v where
  wf o ho rk hrk := ⟨ds, n, rfl, (Option.some_inj.1 ((h o ho).symm.trans hrk)).symm⟩
  sound o ho hnone := by simp [h o ho] at hnone
  noExpiringRef hk := absurd hk (ds.not_isReferenceKey_deltaKey n)

theorem Valid.exec {α : Type} {p : Prog α} (hp : Writes (ValidWrite E) p) {r : Except Error α}
    (hx : Exec E p w r w') (h : Valid E w.store) : Valid E w'.store where
  wf key o ho := (hp.lookup hx key).elim (fun e => h.wf key o (e ▸ ho)) fun e => e.wf o ho
  sound key o fs ho := (hp.lookup hx key).elim (fun e => h.sound key o fs (e ▸ ho))
    fun e hn => e.sound o ho hn fs
  noExpiringRef key o ho hk := (hp.lookup hx key).elim (fun e => h.noExpiringRef key o (e ▸ ho) hk)
    fun e => e.noExpiringRef hk o ho

theorem put_valid {f : LocalFile} {ds : DeltaSpace} {o : Option String} {r : Except Error PutSummary}
    (hx : Exec E (svc.put f ds o) w r w') (h : Valid E w.store) : Valid E w'.store := by
  rcases exec_put_cases svc f ds o hx with rfl | ⟨-, hx⟩ | ⟨-, -, hx⟩ | ⟨-, _, -, hx⟩
  · exact h
  · exact Valid.exec ((writes_uploadDirect svc f ds _ _ _).mono fun _ _ hv =>
      validWrite_of_plain hv.2) hx h
  · refine Valid.exec ((writes_createReference svc f ds _ _ _).mono fun _ _ hv => ?_) hx h
    rcases hv with ⟨-, hv⟩ | ⟨rfl, hv⟩
    exacts [validWrite_of_plain hv, validWrite_delta hv]
  · exact Valid.exec ((writes_createDelta svc f ds _ _ _ _).mono fun _ _ ⟨hk, hv⟩ =>
      hk ▸ validWrite_delta fun o ho => (hv o ho).1) hx h

/-- Every operation keeps the store valid. -/
theorem Step.valid (hs : Step E svc w w') (h : Valid E w.store) : Valid E w'.store := by
  cases hs with
  | put hx => exact put_valid svc hx h
  | get hx => exact Valid.exec (writes_get _ _) hx h
  | verify hx => exact Valid.exec (writes_verify _) hx h
  | delete hx => exact Valid.exec ((writes_delete _).mono fun _ _ => validWrite_of_none) hx h
  | deleteRecursive hx =>
    exact Valid.exec ((writes_deleteRecursive _ _).mono fun _ _ hv => validWrite_of_none hv.1) hx h
  | rehydrateForDownload hx =>
    exact Valid.exec ((writes_rehydrateForDownload svc _ _ _).mono fun _ _ hv =>
      validWrite_of_bare hv.1 hv.2) hx h
  | purgeTempFiles hx =>
    exact Valid.exec ((writes_purgeTempFiles svc _).mono fun _ _ => validWrite_of_none) hx h
  | env he => exact ⟨fun key o ho => h.wf key o (he ▸ ho), fun key o fs ho => h.sound key o fs (he ▸ ho),
      fun key o ho => h.noExpiringRef key o (he ▸ ho)⟩

theorem Valid.empty : Valid E ∅ :=
  ⟨fun _ _ ho => by simp at ho, fun _ _ _ ho => by simp at ho, fun _ _ ho => by simp at ho⟩

theorem Reachable.valid (h : Reachable E svc w) : Valid E w.store := by
  induction h with
  | init he => exact he ▸ Valid.empty
  | step _ hs ih => exact hs.valid svc ih

theorem Reachable.wf (h : Reachable E svc w) : StoreWF w.store := (h.valid svc).wf

theorem ObjectWF.startswith_of_reference {key : ObjectKey} {o : StoredObject} {rk np : String}
    (h : ObjectWF key o) (hrk : resolveMetadata o.metadata "ref_key" = some rk)
    (hp : np = "" ∨ endswith np "/" = true) (hs : startswith rk np = true) :
    startswith key.key np = true := by
  obtain ⟨ds, n, rfl, rfl⟩ := h rk hrk
  rw [DeltaSpace.deltaKey_eq]
  exact ds.startswith_directKey _ hp hs

theorem ObjectWF.endswith_delta {key : ObjectKey} {o : StoredObject} {rk : String}
    (h : ObjectWF key o) (hrk : resolveMetadata o.metadata "ref_key" = some rk) :
    endswith key.key ".delta" = true := by
  obtain ⟨ds, n, rfl, -⟩ := h rk hrk
  rw [DeltaSpace.deltaKey_eq, DeltaSpace.endswith_directKey _ _ (by decide)]
  exact endswith_append _ _

end DeltaService

end DeltaGlider
