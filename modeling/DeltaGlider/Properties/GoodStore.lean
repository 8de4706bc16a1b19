import DeltaGlider.Properties.Cleanup

/-! # Good stores

Every object with a `ref_key` and a `ref_sha256` has its reference, recording that SHA. Every
operation but a delete or put of a `reference.bin` key keeps this. -/

namespace DeltaGlider

namespace DeltaService

variable (svc : DeltaService) {E : Engine}

def Good (E : Engine) (s : Store) : Prop :=
  ∀ key o rk rs, s.lookup key = some o → resolveMetadata o.metadata "ref_key" = some rk →
    resolveMetadata o.metadata "ref_sha256" = some rs →
    ∃ ref, s.lookup ⟨key.bucket, rk⟩ = some ref ∧
      resolveMetadata ref.metadata "file_sha256" = some rs ∧ E.sha256 ref.data = rs

structure Inv (E : Engine) (s : Store) : Prop where
  valid : Valid E s
  good : Good E s

/-- No object of the store carrying a reference and its SHA names `k` as the reference. -/
def Unreferenced (s : Store) (k : ObjectKey) : Prop :=
  ∀ key o rk rs, s.lookup key = some o → resolveMetadata o.metadata "ref_key" = some rk →
    resolveMetadata o.metadata "ref_sha256" = some rs → (⟨key.bucket, rk⟩ : ObjectKey) ≠ k

section Store

variable {s s' : Store} {k : ObjectKey}

theorem Valid.of_frame (h : Valid E s) (hf : ∀ key, s'.lookup key = s.lookup key ∨
    ValidWrite E key (s'.lookup key)) : Valid E s' where
  wf key o ho := (hf key).elim (fun e => h.wf key o (e ▸ ho)) fun e => e.wf o ho
  sound key o fs ho := (hf key).elim (fun e => h.sound key o fs (e ▸ ho))
    fun e hn => e.sound o ho hn fs
  noExpiringRef key o ho hk := (hf key).elim (fun e => h.noExpiringRef key o (e ▸ ho) hk)
    fun e => e.noExpiringRef hk o ho

theorem Valid.unreferenced (h : Valid E s) (hk : ¬IsReferenceKey k.key) : Unreferenced s k := by
  rintro key o rk rs ho hrk - rfl
  obtain ⟨ds, n, -, rfl⟩ := h.wf key o ho rk hrk
  exact hk ds.isReferenceKey_referenceKey

theorem Good.unreferenced (h : Good E s) (hk : s.lookup k = none) : Unreferenced s k := by
  rintro key o rk rs ho hrk hrs rfl
  obtain ⟨ref, href, -⟩ := h key o rk rs ho hrk hrs
  rw [hk] at href; cases href

theorem Valid.sha_reference (h : Valid E s) {ds : DeltaSpace} {ref : StoredObject} {rs : String}
    (href : s.lookup ⟨ds.bucket, ds.referenceKey⟩ = some ref)
    (hs : resolveMetadata ref.metadata "file_sha256" = some rs) : E.sha256 ref.data = rs := by
  refine h.sound _ ref rs href ?_ hs
  rcases hrk : resolveMetadata ref.metadata "ref_key" with _ | rk
  · rfl
  · obtain ⟨ds', n, he, -⟩ := h.wf _ ref href rk hrk
    have e : ds.referenceKey = ds'.deltaKey n := congrArg ObjectKey.key he
    exact absurd (e ▸ ds.isReferenceKey_referenceKey) (ds'.not_isReferenceKey_deltaKey n)

theorem Inv.congr (h : ∀ key, s'.lookup key = s.lookup key) (hs : Inv E s) : Inv E s' where
  valid := hs.valid.of_frame fun key => .inl (h key)
  good key o rk rs ho hrk hrs := by
    simp only [h] at ho ⊢; exact hs.good key o rk rs ho hrk hrs

theorem Inv.erase (h : Inv E s) (hk : Unreferenced s k) : Inv E (s.erase k) where
  valid := h.valid.of_frame fun key => by
    by_cases e : key = k
    · subst e; rw [AList.lookup_erase]; exact .inr (validWrite_of_none rfl)
    · exact .inl (AList.lookup_erase_ne e)
  good key o rk rs ho hrk hrs := by
    have e : key ≠ k := fun e => by rw [e, AList.lookup_erase] at ho; cases ho
    rw [AList.lookup_erase_ne e] at ho
    obtain ⟨ref, href, hr⟩ := h.good key o rk rs ho hrk hrs
    exact ⟨ref, by rw [AList.lookup_erase_ne (hk key o rk rs ho hrk hrs)]; exact href, hr⟩

theorem Inv.insert {o : StoredObject} (h : Inv E s) (hk : Unreferenced s k)
    (hw : ValidWrite E k (some o))
    (hg : ∀ rk rs, resolveMetadata o.metadata "ref_key" = some rk →
      resolveMetadata o.metadata "ref_sha256" = some rs → (⟨k.bucket, rk⟩ : ObjectKey) ≠ k ∧
        ∃ ref, s.lookup ⟨k.bucket, rk⟩ = some ref ∧
          resolveMetadata ref.metadata "file_sha256" = some rs ∧ E.sha256 ref.data = rs) :
    Inv E (s.insert k o) where
  valid := h.valid.of_frame fun key => by
    by_cases e : key = k
    · subst e; rw [AList.lookup_insert]; exact .inr hw
    · exact .inl (AList.lookup_insert_ne e)
  good key o' rk rs ho hrk hrs := by
    by_cases e : key = k
    · subst e
      rw [AList.lookup_insert, Option.some_inj] at ho
      subst ho
      obtain ⟨hne, ref, href, hr⟩ := hg rk rs hrk hrs
      exact ⟨ref, by rw [AList.lookup_insert_ne hne]; exact href, hr⟩
    · rw [AList.lookup_insert_ne e] at ho
      obtain ⟨ref, href, hr⟩ := h.good key o' rk rs ho hrk hrs
      exact ⟨ref, by rw [AList.lookup_insert_ne (hk key o' rk rs ho hrk hrs)]; exact href, hr⟩

theorem Inv.empty : Inv E ∅ := ⟨Valid.empty, fun _ _ _ _ ho => by simp at ho⟩

theorem Inv.of_deletes (h : Inv E s)
    (hf : ∀ key, s'.lookup key = s.lookup key ∨ s'.lookup key = none)
    (hkeep : ∀ key o rk, s'.lookup key = some o → resolveMetadata o.metadata "ref_key" = some rk →
      s.lookup ⟨key.bucket, rk⟩ ≠ none → s'.lookup ⟨key.bucket, rk⟩ ≠ none) : Inv E s' where
  valid := h.valid.of_frame fun key => (hf key).imp_right validWrite_of_none
  good key o rk rs ho hrk hrs := by
    have ho' : s.lookup key = some o :=
      (hf key).elim (fun e => e.symm.trans ho) fun e => by rw [e] at ho; cases ho
    obtain ⟨ref, href, hr⟩ := h.good key o rk rs ho' hrk hrs
    have e := (hf ⟨key.bucket, rk⟩).resolve_right (hkeep key o rk ho hrk (by simp [href]))
    exact ⟨ref, e.trans href, hr⟩

theorem Inv.of_bare_writes (h : Inv E s) (hf : ∀ key, s'.lookup key = s.lookup key ∨
    ¬IsReferenceKey key.key ∧ ∀ o, s'.lookup key = some o →
      resolveMetadata o.metadata "ref_key" = none ∧ resolveMetadata o.metadata "file_sha256" = none) :
    Inv E s' where
  valid := h.valid.of_frame fun key => (hf key).imp_right fun hv => validWrite_of_bare hv.1 hv.2
  good key o rk rs ho hrk hrs := by
    rcases hf key with e | ⟨-, hb⟩
    · obtain ⟨ref, href, hr⟩ := h.good key o rk rs (e.symm.trans ho) hrk hrs
      obtain ⟨ds, n, -, rfl⟩ := h.valid.wf key o (e.symm.trans ho) rk hrk
      rcases hf ⟨key.bucket, ds.referenceKey⟩ with e' | ⟨hk, -⟩
      · exact ⟨ref, e'.trans href, hr⟩
      · exact absurd ds.isReferenceKey_referenceKey hk
    · simp [(hb o ho).1] at hrk

theorem Valid.unreferenced_of_listing (h : Valid E s) {b P k : String}
    (hk : s.lookup ⟨b, k⟩ = none)
    (hl : ∀ obj ∈ listObjects s b P, endswith obj.key ".delta" = true → obj.key = k) :
    Unreferenced s ⟨b, P ++ "/reference.bin"⟩ := by
  rintro ⟨kb, kk⟩ o rk rs ho hrk - he
  injection he with hb hr
  subst hb hr
  have hs : startswith kk (P ++ "/") = true := (h.wf _ o ho).startswith_of_reference hrk
    (.inr (endswith_append _ _)) (by
      rw [show P ++ "/reference.bin" = P ++ "/" ++ "reference.bin" by rw [String.append_assoc]; rfl]
      exact startswith_append _ _)
  have e : kk = k :=
    hl _ (mem_listObjects ho (startswith_of_append hs)) ((h.wf _ o ho).endswith_delta hrk)
  subst e
  rw [hk] at ho; cases ho

end Store

section Put

variable {w : World} (f : LocalFile) (ds : DeltaSpace) (n : String) (size : Nat)

theorem keeps_uploadDirect (h : Inv E w.store) (hk : ¬IsReferenceKey (ds.directKey n)) :
    Keeps E (Inv E) (svc.uploadDirect f ds (E.sha256 f.data) n size) w := by
  unfold uploadDirect
  refine Keeps.perform_bind h h fun _ _ => Keeps.perform_bind h ?_ fun _ _ => ?_
  all_goals
    refine h.insert (h.valid.unreferenced hk)
      (validWrite_of_plain fun o ho => by cases ho; exact ⟨rfl, rfl, rfl, rfl⟩) fun _ _ hrk => ?_
    simp [resolveMetadata, lookup, dgKey, List.lookup_cons] at hrk

theorem keeps_createReference (h : Inv E w.store)
    (hnone : w.store.lookup ⟨ds.bucket, ds.referenceKey⟩ = none) :
    Keeps E (Inv E) (svc.createReference f ds (E.sha256 f.data) n size) w := by
  unfold createReference
  refine Keeps.perform_bind h h fun t _ => ?_
  have h1 : Inv E (w.store.insert ⟨ds.bucket, ds.referenceKey⟩
      ⟨f.data, (⟨svc.toolVersion, n, E.sha256 f.data, svc.isoformat t⟩ : ReferenceMeta).toDict⟩) :=
    h.insert (h.good.unreferenced hnone) (validWrite_of_plain fun o ho => by
      cases ho
      exact ⟨rfl, (resolveMetadata_refToDict _).1, (resolveMetadata_refToDict _).2,
        lookup_refToDict_expiresAt _⟩) fun _ _ hrk => by simp at hrk
  refine Keeps.perform_bind h h1 fun _ _ => Keeps.perform_bind h1 h1 fun rh hrh => ?_
  simp only [Call.interp, AList.lookup_insert, Option.map_some', Except.ok.injEq] at hrh
  subst hrh
  refine Keeps.perform_bind h1 h1 fun _ _ => (Keeps.mono (fun s (h : Inv E s ∧
    s.lookup ⟨ds.bucket, ds.referenceKey⟩ = some ⟨f.data, (⟨svc.toolVersion, n, E.sha256 f.data,
      svc.isoformat t⟩ : ReferenceMeta).toDict⟩) => h.1) ?_)
  refine Keeps.bind (Keeps.withTemp ⟨h1, AList.lookup_insert _⟩ fun _ _ ht => ?_) fun _ _ h' => h'
  refine Keeps.read_bind rfl ht fun _ _ ht => Keeps.read_bind rfl ht fun _ _ ht => Keeps.perform ht ?_
  refine ⟨ht.1.insert (ht.1.valid.unreferenced (ds.not_isReferenceKey_deltaKey n))
    (validWrite_delta fun o ho => by cases ho; exact (resolveMetadata_toDict _).2.1)
    fun rk rs hrk hrs => ?_, (AList.lookup_insert_ne (ds.reference_ne_delta n)).trans ht.2⟩
  simp only [resolveMetadata_toDict, Option.some_inj] at hrk hrs
  subst hrk hrs
  exact ⟨ds.reference_ne_delta n, _, ht.2, by simp, by simp⟩

theorem keeps_createDelta (fs : String) {ref : StoredObject} (h : Inv E w.store)
    (href : w.store.lookup ⟨ds.bucket, ds.referenceKey⟩ = some ref) :
    Keeps E (Inv E) (svc.createDelta f ds (ref.head ⟨ds.bucket, ds.referenceKey⟩) fs n size) w := by
  have hc : ∀ s s' : Store, (∀ k, s'.lookup k = s.lookup k) →
      Inv E s ∧ s.lookup ⟨ds.bucket, ds.referenceKey⟩ = some ref →
      Inv E s' ∧ s'.lookup ⟨ds.bucket, ds.referenceKey⟩ = some ref :=
    fun _ _ he hs => ⟨hs.1.congr he, (he _).trans hs.2⟩
  unfold createDelta
  refine Keeps.mono (fun s (h : Inv E s ∧ s.lookup ⟨ds.bucket, ds.referenceKey⟩ = some ref) => h.1)
    (Keeps.bind_returns (Keeps.of_writes_none (writes_requireRefSha _) ⟨h, href⟩ hc)
      (returns_requireRefSha _) fun rs _ hrs hI => ?_)
  refine Keeps.bind (Keeps.of_writes_none (writes_ensureReference ds rs) hI hc) fun _ _ hI => ?_
  refine Keeps.read_bind rfl hI fun _ _ hI => Keeps.withTemp hI fun _ _ hI => ?_
  refine Keeps.bind (Keeps.tryCatch (Keeps.perform hI (by rw [Call.interp_store]; exact hI))
    fun _ _ h => h) fun _ _ hI => ?_
  split
  · exact hI
  refine Keeps.read_bind rfl hI fun _ _ hI => Keeps.perform_bind hI ?_ fun _ _ => ?_
  all_goals
    refine ⟨hI.1.insert (hI.1.valid.unreferenced (ds.not_isReferenceKey_deltaKey n))
      (validWrite_delta fun o ho => by cases ho; exact (resolveMetadata_toDict _).2.1)
      fun rk rs' hrk hrs' => ?_, (AList.lookup_insert_ne (ds.reference_ne_delta n)).trans hI.2⟩
    simp only [resolveMetadata_toDict, Option.some_inj] at hrk hrs'
    subst hrk hrs'
    simp only [StoredObject.head_metadata] at hrs
    exact ⟨ds.reference_ne_delta n, ref, hI.2, hrs, hI.1.valid.sha_reference hI.2 hrs⟩

theorem keeps_put (o : Option String) (h : Inv E w.store)
    (hk : ¬IsReferenceKey (svc.putKey ds (originalNameOf f o))) : Keeps E (Inv E) (svc.put f ds o) w :=
  wp_iff.2 fun _ _ hx => by
    rcases exec_put_cases svc f ds o hx with rfl | ⟨hd, hx⟩ | ⟨-, hn, hx⟩ | ⟨-, ref, href, hx⟩
    · exact h
    · exact (keeps_uploadDirect svc f ds _ _ h (by simpa [putKey, hd] using hk)).exec hx
    · exact (keeps_createReference svc f ds _ _ h hn).exec hx
    · exact (keeps_createDelta svc f ds _ _ _ h href).exec hx

end Put

section Delete

variable {w : World} {k : ObjectKey}

theorem keeps_deleteDelta (hd : ObjectHead) (r : DeleteResult) (h : Inv E w.store)
    (hk : ¬IsReferenceKey k.key) : Keeps E (Inv E) (deleteDelta k hd r) w := by
  unfold deleteDelta
  have h1 : Inv E (w.store.erase k) := h.erase (h.valid.unreferenced hk)
  refine Keeps.perform_bind h h1 fun _ _ => ?_
  dsimp only [Call.interp]
  split
  · exact h1
  refine Keeps.perform_bind h1 h1 fun objs hobjs => ?_
  simp only [Call.interp, Except.ok.injEq] at hobjs
  subst hobjs
  split
  · rename_i hl
    rw [List.isEmpty_iff, List.map_eq_nil_iff, List.filter_eq_nil_iff] at hl
    have h2 := h1.erase (h1.valid.unreferenced_of_listing (AList.lookup_erase _ _) fun obj hobj hd => by
      simpa [hd] using hl obj hobj)
    refine Keeps.perform_bind h1 h1 fun _ _ => ?_
    split
    · refine Keeps.perform_bind h1 h2 fun _ _ => ?_
      exact Keeps.bind (Keeps.tryCatch (Keeps.perform h2 (by rw [Call.interp_store]; exact h2))
        fun _ _ h => h) fun _ _ h => h
    · exact h1
  · exact h1

theorem keeps_delete (h : Inv E w.store) (hk : ¬IsReferenceKey k.key) :
    Keeps E (Inv E) (delete k) w := by
  unfold delete
  have h1 : Inv E (w.store.erase k) := h.erase (h.valid.unreferenced hk)
  refine Keeps.perform_bind h h fun _ _ => ?_
  dsimp only [Call.interp]
  split
  · split
    · exact absurd (.inr ‹_›) hk
    split
    · exact keeps_deleteDelta _ _ h hk
    split <;> exact Keeps.perform_bind h h1 fun _ _ => h1
  · exact h

/-- Without failures `delete_recursive` keeps the invariant: every reference a survivor records
survives. -/
theorem run_deleteRecursive_inv (b p : String) (h : Inv E w.store) :
    Inv E (run E (deleteRecursive b p) w).2.store := by
  obtain ⟨s, hs⟩ := (noThrow_deleteRecursive b p).run_eq w
  exact h.of_deletes (fun key => ((writes_deleteRecursive b p).run_lookup hs key).imp_right (·.1))
    fun _ _ _ ho hrk hpre => run_deleteRecursive_keeps_references h.valid.wf hs ho hrk hpre

end Delete

section Others

variable {w : World}

theorem keeps_purgeOne (bucket : String) (obj : ObjectHead) (result : PurgeResult)
    (h : Inv E w.store) : Keeps E (Inv E) (svc.purgeOne bucket obj result) w := by
  unfold purgeOne
  refine Keeps.perform_bind h h fun oh hoh => ?_
  simp only [Call.interp, Except.ok.injEq] at hoh
  subst hoh
  split
  rotate_left
  · exact h
  rename_i objHead hhd
  split
  rotate_left
  · exact h
  rename_i ex hex
  obtain ⟨o, ho, rfl⟩ := Option.map_eq_some'.1 hhd
  have h1 : Inv E (w.store.erase ⟨bucket, obj.key⟩) := h.erase (h.valid.unreferenced fun hr => by
    rw [StoredObject.head_metadata, h.valid.noExpiringRef _ o ho hr] at hex; cases hex)
  repeat' first
    | exact h
    | exact Keeps.tryCatch (Keeps.perform_bind h h1 fun _ _ => h1) fun _ _ h => h
    | refine Keeps.perform_bind h h fun _ _ => ?_
    | split

theorem keeps_purgeTempFiles (bucket : String) (h : Inv E w.store) :
    Keeps E (Inv E) (svc.purgeTempFiles bucket) w :=
  Keeps.read_bind rfl h fun _ _ h => loop _ _ h
where
  loop : ∀ objs result {w : World}, Inv E w.store →
      Keeps E (Inv E) (svc.purgeLoop bucket ".deltaglider/tmp/" objs result) w
    | [], _, _, h => h
    | _ :: rest, _, _, h => by
      rw [purgeLoop]
      split
      · exact loop rest _ h
      · exact Keeps.bind (Keeps.tryCatch (svc.keeps_purgeOne _ _ _ h) fun _ _ h => h)
          fun _ _ h => loop rest _ h

theorem keeps_rehydrateForDownload (b k : String) (e : Int) (h : Inv E w.store) :
    Keeps E (Inv E) (svc.rehydrateForDownload b k e) w :=
  wp_iff.2 fun _ _ hx => h.of_bare_writes ((svc.writes_rehydrateForDownload b k e).lookup hx)

theorem keeps_get (k : ObjectKey) (out : Sink) (h : Inv E w.store) : Keeps E (Inv E) (get k out) w :=
  Keeps.of_writes_none (writes_get k out) h fun _ _ he hs => hs.congr he

theorem keeps_verify (k : ObjectKey) (h : Inv E w.store) : Keeps E (Inv E) (verify k) w :=
  Keeps.of_writes_none (writes_verify k) h fun _ _ he hs => hs.congr he

end Others

/-- The operations that keep a good store good: a `Step` other than a delete of a reference key
or a `put` whose own key is one, with `delete_recursive` run without failures. -/
inductive SafeStep (E : Engine) (svc : DeltaService) : World → World → Prop
  | put {f ds o w r w'} : ¬IsReferenceKey (svc.putKey ds (originalNameOf f o)) →
      Exec E (svc.put f ds o) w r w' → SafeStep E svc w w'
  | get {k out w r w'} : Exec E (get k out) w r w' → SafeStep E svc w w'
  | verify {k w r w'} : Exec E (verify k) w r w' → SafeStep E svc w w'
  | delete {k w r w'} : ¬IsReferenceKey k.key → Exec E (delete k) w r w' → SafeStep E svc w w'
  | deleteRecursive {b p w} : SafeStep E svc w (run E (deleteRecursive b p) w).2
  | rehydrateForDownload {b k e w r w'} :
      Exec E (svc.rehydrateForDownload b k e) w r w' → SafeStep E svc w w'
  | purgeTempFiles {b w r w'} : Exec E (svc.purgeTempFiles b) w r w' → SafeStep E svc w w'

/-- Worlds reached from an empty store by safe operations and changes outside the store. -/
inductive SafeReachable (E : Engine) (svc : DeltaService) : World → Prop
  | init {w} : w.store = ∅ → SafeReachable E svc w
  | step {w w'} : SafeReachable E svc w → SafeStep E svc w w' → SafeReachable E svc w'
  | env {w w'} : SafeReachable E svc w → w'.store = w.store → SafeReachable E svc w'

section Safe

variable {w w' : World}

theorem SafeStep.step (hs : SafeStep E svc w w') : Step E svc w w' := by
  cases hs with
  | put _ hx => exact .put hx
  | get hx => exact .get hx
  | verify hx => exact .verify hx
  | delete _ hx => exact .delete hx
  | deleteRecursive => exact .deleteRecursive (exec_run _ _)
  | rehydrateForDownload hx => exact .rehydrateForDownload hx
  | purgeTempFiles hx => exact .purgeTempFiles hx

theorem SafeReachable.reachable (h : SafeReachable E svc w) : Reachable E svc w := by
  induction h with
  | init he => exact .init he
  | step _ hs ih => exact .step ih hs.step
  | env _ he ih => exact .step ih (.env he)

theorem SafeStep.inv (hs : SafeStep E svc w w') (h : Inv E w.store) : Inv E w'.store := by
  cases hs with
  | put hk hx => exact (keeps_put svc _ _ _ h hk).exec hx
  | get hx => exact (keeps_get _ _ h).exec hx
  | verify hx => exact (keeps_verify _ h).exec hx
  | delete hk hx => exact (keeps_delete h hk).exec hx
  | deleteRecursive => exact run_deleteRecursive_inv _ _ h
  | rehydrateForDownload hx => exact (svc.keeps_rehydrateForDownload _ _ _ h).exec hx
  | purgeTempFiles hx => exact (svc.keeps_purgeTempFiles _ h).exec hx

theorem lookup_of_deleting_writes {α : Type} {P : ObjectKey → Option StoredObject → Prop}
    {p : Prog α} (hp : Writes P p) {r : Except Error α} (hx : Exec E p w r w') {K : ObjectKey}
    (hP : ∀ v, P K v → v = none) {ref : StoredObject} (href : w.store.lookup K = some ref) :
    w'.store.lookup K = some ref ∨ w'.store.lookup K = none :=
  (hp.lookup hx K).imp (·.trans href) (hP _)

theorem SafeStep.lookup_reference (hs : SafeStep E svc w w') {ds : DeltaSpace} {ref : StoredObject}
    (href : w.store.lookup ⟨ds.bucket, ds.referenceKey⟩ = some ref) :
    w'.store.lookup ⟨ds.bucket, ds.referenceKey⟩ = some ref ∨
      w'.store.lookup ⟨ds.bucket, ds.referenceKey⟩ = none := by
  have hr : ∀ {k : ObjectKey}, (⟨ds.bucket, ds.referenceKey⟩ : ObjectKey) = k →
      IsReferenceKey k.key := fun e => e ▸ ds.isReferenceKey_referenceKey
  have hw : ∀ {α : Type} {p : Prog α}, Writes (fun _ _ => False) p → ∀ {r : Except Error α},
      Exec E p w r w' → w'.store.lookup ⟨ds.bucket, ds.referenceKey⟩ = some ref ∨
        w'.store.lookup ⟨ds.bucket, ds.referenceKey⟩ = none :=
    fun hp _ hx => lookup_of_deleting_writes hp hx (fun _ => False.elim) href
  cases hs with
  | put hk hx =>
    rcases exec_put_cases svc _ _ _ hx with rfl | ⟨hd, hx⟩ | ⟨-, hn, hx⟩ | ⟨-, _, -, hx⟩
    · exact .inl href
    · refine lookup_of_deleting_writes (writes_uploadDirect svc _ _ _ _ _) hx (fun _ hv => ?_) href
      simp [putKey, hd] at hk
      exact absurd (hr hv.1) hk
    · refine lookup_of_deleting_writes (writes_createReference svc _ _ _ _ _) hx
        (fun _ hv => ?_) href
      rcases hv with ⟨he, -⟩ | ⟨he, -⟩
      · rw [← he, href] at hn; cases hn
      · exact absurd (hr he) (DeltaSpace.not_isReferenceKey_deltaKey _ _)
    · exact lookup_of_deleting_writes (writes_createDelta svc _ _ _ _ _ _) hx (fun _ hv =>
        absurd (hr hv.1) (DeltaSpace.not_isReferenceKey_deltaKey _ _)) href
  | get hx => exact hw (writes_get _ _) hx
  | verify hx => exact hw (writes_verify _) hx
  | delete _ hx => exact lookup_of_deleting_writes (writes_delete _) hx (fun _ => id) href
  | deleteRecursive =>
    exact lookup_of_deleting_writes (writes_deleteRecursive _ _) (exec_run _ _) (fun _ => (·.1)) href
  | rehydrateForDownload hx =>
    exact lookup_of_deleting_writes (svc.writes_rehydrateForDownload _ _ _) hx
      (fun _ hv => absurd (hr rfl) hv.1) href
  | purgeTempFiles hx =>
    exact lookup_of_deleting_writes (svc.writes_purgeTempFiles _) hx (fun _ => id) href

/-- From a valid, good store, a safe operation leaves the store good, and a deltaspace's
reference that exists before it is afterwards the same object or gone. -/
theorem safeStep_keeps_good (hv : Valid E w.store) (hg : Good E w.store)
    (hs : SafeStep E svc w w') :
    Good E w'.store ∧ ∀ (ds : DeltaSpace) ref, w.store.lookup ⟨ds.bucket, ds.referenceKey⟩ = some ref →
      w'.store.lookup ⟨ds.bucket, ds.referenceKey⟩ = some ref ∨
        w'.store.lookup ⟨ds.bucket, ds.referenceKey⟩ = none :=
  ⟨(hs.inv svc ⟨hv, hg⟩).good, fun _ _ => hs.lookup_reference svc⟩

def xSpaceTwoWorld : World :=
  (run sampleEngine (sample.put ⟨"b.zip", [1, 2]⟩ ⟨"b", "x"⟩ none) xSpaceWorld).2

theorem xSpaceWorld_inv : Inv sampleEngine xSpaceWorld.store :=
  (keeps_put sample _ _ _ Inv.empty (by decide)).exec (exec_run _ _)

theorem safeStep_keeps_good_sample :
    Valid sampleEngine xSpaceWorld.store ∧ Good sampleEngine xSpaceWorld.store ∧
    SafeStep sampleEngine sample xSpaceWorld xSpaceTwoWorld ∧
    (Good sampleEngine xSpaceTwoWorld.store ∧ ∀ (ds : DeltaSpace) ref,
      xSpaceWorld.store.lookup ⟨ds.bucket, ds.referenceKey⟩ = some ref →
      xSpaceTwoWorld.store.lookup ⟨ds.bucket, ds.referenceKey⟩ = some ref ∨
        xSpaceTwoWorld.store.lookup ⟨ds.bucket, ds.referenceKey⟩ = none) :=
  have hs : SafeStep sampleEngine sample xSpaceWorld xSpaceTwoWorld := .put (by decide) (exec_run _ _)
  ⟨xSpaceWorld_inv.valid, xSpaceWorld_inv.good, hs,
    safeStep_keeps_good sample xSpaceWorld_inv.valid xSpaceWorld_inv.good hs⟩

def refNamedWorld : World :=
  (run sampleEngine (sample.put ⟨"reference.bin", [9, 9]⟩ ⟨"b", "x"⟩ none) xSpaceWorld).2

theorem put_named_reference_breaks_good :
    Reachable sampleEngine sample xSpaceWorld ∧ Good sampleEngine xSpaceWorld.store ∧
    Step sampleEngine sample xSpaceWorld refNamedWorld ∧ ¬Good sampleEngine refNamedWorld.store ∧
    (xSpaceWorld.store.lookup ⟨"b", "x/reference.bin"⟩).map (·.data) = some [1, 2, 3] ∧
    (refNamedWorld.store.lookup ⟨"b", "x/reference.bin"⟩).map (·.data) = some [9, 9] := by
  refine ⟨xSpaceWorld_reachable, xSpaceWorld_inv.good, .put (exec_run _ _), fun hg => ?_, by decide,
    by decide⟩
  obtain ⟨o, ho, hrk, hrs⟩ : ∃ o, refNamedWorld.store.lookup ⟨"b", "x/a.zip.delta"⟩ = some o ∧
      resolveMetadata o.metadata "ref_key" = some "x/reference.bin" ∧
      resolveMetadata o.metadata "ref_sha256" = some "sha-3" := ⟨_, rfl, by decide, by decide⟩
  obtain ⟨ref, href, hs, -⟩ := hg _ o _ _ ho hrk hrs
  have h2 : ((refNamedWorld.store.lookup ⟨"b", "x/reference.bin"⟩).bind fun o =>
      resolveMetadata o.metadata "file_sha256") = some "sha-2" := by decide
  rw [href, Option.some_bind, hs] at h2
  exact absurd h2 (by decide)

/-- Every store reached from an empty one by safe operations is good. -/
theorem safeReachable_good (h : SafeReachable E svc w) : Good E w.store := by
  suffices Inv E w.store from this.good
  induction h with
  | init he => exact he ▸ Inv.empty
  | step _ hs ih => exact hs.inv svc ih
  | env _ he ih => exact ih.congr fun k => by rw [he]

theorem safeReachable_good_sample :
    SafeReachable sampleEngine sample xSpaceTwoWorld ∧ Good sampleEngine xSpaceTwoWorld.store :=
  have h : SafeReachable sampleEngine sample xSpaceTwoWorld :=
    .step (.step (.init rfl) (.put (by decide) (exec_run _ _))) (.put (by decide) (exec_run _ _))
  ⟨h, safeReachable_good sample h⟩

end Safe

end DeltaService

end DeltaGlider
