import DeltaGlider.Properties.Recovery

/-! # The store as clients see it

The view of a key is what `get` writes for it; safe operations change the view at their own key
alone. -/

namespace DeltaGlider

namespace DeltaService

variable (svc : DeltaService) {E : Engine}

/-- The bytes `get` gives back for an object: the stored bytes on its direct branches (for a
direct upload, when its `file_size` reads as an integer), the decoding against the deltaspace's
reference on its delta branch. -/
def content (E : Engine) (s : Store) (k : ObjectKey) (o : StoredObject) : Option Bytes :=
  if (lookup o.metadata "dg-file-sha256").isNone then some o.data
  else if lookup o.metadata "compression" = some "none" then
    (fileSizeValue (o.head k)).toOption.map fun _ => o.data
  else
    match DeltaMeta.fromDict o.metadata with
    | .ok m => (s.lookup ⟨k.bucket, DeltaSpace.referenceKey ⟨k.bucket, refPrefix m.refKey⟩⟩).bind
        fun ref => E.decode ref.data o.data
    | .error _ => none

/-- The files clients see: what each key that is no reference key reads as. -/
def view (E : Engine) (s : Store) (k : ObjectKey) : Option Bytes :=
  if IsReferenceKey k.key then none else (s.lookup k).bind (content E s k)

section Store

variable {s s' : Store} {k : ObjectKey} {o : StoredObject}

theorem content_direct
    (h : lookup o.metadata "dg-file-sha256" = none ∨
      lookup o.metadata "compression" = some "none" ∧ ∃ n, fileSizeValue (o.head k) = .ok n) :
    content E s k o = some o.data := by
  rcases h with h | ⟨h, n, hn⟩
  · simp [content, h]
  · simp [content, h, hn, Except.toOption]

theorem content_of_refKey_none (hrk : resolveMetadata o.metadata "ref_key" = none)
    (h : ¬(lookup o.metadata "dg-file-sha256" = none ∨ lookup o.metadata "compression" = some "none")) :
    content E s k o = none ∧ ∃ e, DeltaMeta.fromDict o.metadata = .error e := by
  rw [not_or] at h
  rcases hm : DeltaMeta.fromDict o.metadata with e | m
  · exact ⟨by simp [content, Option.isNone_iff_eq_none, h.1, h.2, hm], e, rfl⟩
  · rw [(fromDict_eq_ok hm).2.1] at hrk; cases hrk

theorem reference_of_fromDict (hv : Valid E s) (hg : Good E s) (hk : s.lookup k = some o)
    {m : DeltaMeta} (hm : DeltaMeta.fromDict o.metadata = .ok m) :
    ∃ ds : DeltaSpace, k.bucket = ds.bucket ∧ m.refKey = ds.referenceKey ∧
      ∃ ref, s.lookup ⟨ds.bucket, ds.referenceKey⟩ = some ref ∧ E.sha256 ref.data = m.refSha256 := by
  obtain ⟨-, hrk, hrs⟩ := fromDict_eq_ok hm
  obtain ⟨ref, href, -, hsha⟩ := hg k o _ _ hk hrk hrs
  obtain ⟨ds, n, rfl, he⟩ := hv.wf k o hk _ hrk
  exact ⟨ds, rfl, he, ref, he ▸ href, hsha⟩

theorem delta_referenceKey {ds : DeltaSpace} {m : DeltaMeta} (hb : k.bucket = ds.bucket)
    (hrk : m.refKey = ds.referenceKey) :
    (⟨k.bucket, DeltaSpace.referenceKey ⟨k.bucket, refPrefix m.refKey⟩⟩ : ObjectKey) =
      ⟨ds.bucket, ds.referenceKey⟩ := by
  rw [hrk, refPrefix_referenceKey, hb]

theorem content_congr (hv : Valid E s) (hg : Good E s) (hg' : Good E s')
    (href : ∀ (ds : DeltaSpace) ref, s.lookup ⟨ds.bucket, ds.referenceKey⟩ = some ref →
      s'.lookup ⟨ds.bucket, ds.referenceKey⟩ = some ref ∨ s'.lookup ⟨ds.bucket, ds.referenceKey⟩ = none)
    (hk : s.lookup k = some o) (hk' : s'.lookup k = some o) : content E s' k o = content E s k o := by
  unfold content
  split_ifs
  · rfl
  · rfl
  rcases hm : DeltaMeta.fromDict o.metadata with e | m
  · rfl
  obtain ⟨ds, hb, hrk, ref, hsref, -⟩ := reference_of_fromDict hv hg hk hm
  dsimp only
  rw [delta_referenceKey hb hrk]
  rcases href ds ref hsref with e | e
  · rw [e, hsref]
  · obtain ⟨-, hrk', hrs'⟩ := fromDict_eq_ok hm
    obtain ⟨_, h', -⟩ := hg' k o _ _ hk' hrk' hrs'
    rw [hb, hrk, e] at h'
    cases h'

theorem view_congr (hv : Valid E s) (hg : Good E s) (hg' : Good E s')
    (href : ∀ (ds : DeltaSpace) ref, s.lookup ⟨ds.bucket, ds.referenceKey⟩ = some ref →
      s'.lookup ⟨ds.bucket, ds.referenceKey⟩ = some ref ∨ s'.lookup ⟨ds.bucket, ds.referenceKey⟩ = none)
    (hk : s'.lookup k = s.lookup k) : view E s' k = view E s k := by
  unfold view
  split_ifs
  · rfl
  rw [hk]
  rcases ho : s.lookup k with _ | o
  · rfl
  · exact content_congr hv hg hg' href ho (hk.trans ho)

theorem content_delta (hv : Valid E s) (hg : Good E s) (hd : Decodable E s)
    (hk : s.lookup k = some o) {rk : String} (hrk : resolveMetadata o.metadata "ref_key" = some rk) :
    ∃ t, content E s k o = some t ∧ resolveMetadata o.metadata "file_sha256" = some (E.sha256 t) := by
  obtain ⟨m, t, hmd, ht, hdec⟩ := hd k o hk rk hrk
  have hm : DeltaMeta.fromDict o.metadata = .ok m := hmd ▸ fromDict_toDict m
  obtain ⟨ds, hb, hrk', ref, href, hsha⟩ := reference_of_fromDict hv hg hk hm
  refine ⟨t, ?_, by rw [hmd, ht]; exact (resolveMetadata_toDict m).1⟩
  simp only [content, hmd, lookup_toDict_dgFileSha256, lookup_toDict_compression, Option.isNone_some,
    fromDict_toDict, Bool.false_eq_true, reduceCtorEq, if_false]
  rw [delta_referenceKey hb hrk', href, Option.some_bind, hdec _ hsha]

theorem view_delta (hinj : Function.Injective E.sha256) (hv : Valid E s) (hg : Good E s)
    (hd : Decodable E s) (hK : ¬IsReferenceKey k.key) (hk : s.lookup k = some o) {rk : String}
    (hrk : resolveMetadata o.metadata "ref_key" = some rk) {data : Bytes}
    (hfs : resolveMetadata o.metadata "file_sha256" = some (E.sha256 data)) :
    view E s k = some data := by
  obtain ⟨t, hc, ht⟩ := content_delta hv hg hd hk hrk
  rw [hfs, Option.some_inj] at ht
  simp [view, hK, hk, hc, hinj ht]

end Store

variable {w w' : World}

theorem SafeStep.view_eq (h : SafeReachable E svc w) (hs : SafeStep E svc w w') {k : ObjectKey}
    (hk : w'.store.lookup k = w.store.lookup k) : view E w'.store k = view E w.store k :=
  have hI := SafeReachable.inv svc h
  view_congr hI.valid hI.good (hs.inv svc hI).good (fun _ _ => hs.lookup_reference svc) hk

/-- Every safe operation, in every execution, changes what a key reads only by changing the object
at that key: a reference shared by several deltas never changes under those it does not touch. -/
theorem safeStep_view_frame (h : SafeReachable E svc w) (hs : SafeStep E svc w w') (k : ObjectKey)
    (hk : w'.store.lookup k = w.store.lookup k) : view E w'.store k = view E w.store k :=
  hs.view_eq svc h hk

theorem safeStep_view_frame_sample :
    SafeReachable sampleEngine sample xSpaceWorld ∧ SafeStep sampleEngine sample xSpaceWorld xSpaceTwoWorld ∧
    xSpaceTwoWorld.store.lookup ⟨"b", "x/a.zip.delta"⟩ = xSpaceWorld.store.lookup ⟨"b", "x/a.zip.delta"⟩ ∧
    view sampleEngine xSpaceTwoWorld.store ⟨"b", "x/a.zip.delta"⟩ =
      view sampleEngine xSpaceWorld.store ⟨"b", "x/a.zip.delta"⟩ :=
  have hr : SafeReachable sampleEngine sample xSpaceWorld := .step (.init rfl) (.put (by decide) (exec_run _ _))
  have hs : SafeStep sampleEngine sample xSpaceWorld xSpaceTwoWorld := .put (by decide) (exec_run _ _)
  have hk : xSpaceTwoWorld.store.lookup ⟨"b", "x/a.zip.delta"⟩ =
      xSpaceWorld.store.lookup ⟨"b", "x/a.zip.delta"⟩ := by decide
  ⟨hr, hs, hk, safeStep_view_frame sample hr hs _ hk⟩

/-- `get` of a key that is no reference key, in a safely reachable store, writes the bytes the
view holds there and raises where the view holds none. -/
theorem run_get_view (hinj : Function.Injective E.sha256)
    (hdiff : ∀ r t d, E.encode r t = some d → E.decode r d = some t) (h : SafeReachable E svc w)
    {k : ObjectKey} (hK : ¬IsReferenceKey k.key) {q : LocalPath} (hq : q.Before w.nextTemp) :
    (∀ d, view E w.store k = some d → ∃ w', run E (get k (.path q)) w = (.ok (), w') ∧
      w'.files.lookup q = some d) ∧
    (view E w.store k = none → ∃ e w', run E (get k (.path q)) w = (.error e, w')) := by
  have hI := SafeReachable.inv svc h
  have hd := Reachable.decodable svc hinj hdiff (SafeReachable.reachable svc h)
  rcases ho : w.store.lookup k with _ | o
  · -- no object: `get` raises `NotFoundError`
    exact ⟨fun d hv => by simp [view, hK, ho] at hv,
      fun _ => ⟨.notFound ("Object not found: " ++ k.key), w, by simp [get, run_bind, ho]⟩⟩
  rcases hrk : resolveMetadata o.metadata "ref_key" with _ | rk
  · have hs : ∀ fs, resolveMetadata o.metadata "file_sha256" = some fs → fs ≠ "" →
        E.sha256 o.data = fs := fun fs hfs _ => hI.valid.sound k o fs ho hrk hfs
    by_cases hbr : lookup o.metadata "dg-file-sha256" = none ∨
        lookup o.metadata "compression" = some "none" ∧ ∃ n, fileSizeValue (o.head k) = .ok n
    · -- a direct object, whose recorded SHA its bytes have
      have hview : view E w.store k = some o.data := by simp [view, hK, ho, content_direct hbr]
      have hget := run_get_direct (E := E) ho hbr hs q
      refine ⟨fun d hv => ?_, fun hv => by rw [hview] at hv; cases hv⟩
      rw [hview, Option.some_inj] at hv
      exact ⟨_, hget, by simp [hv]⟩
    by_cases hc : lookup o.metadata "compression" = some "none"
    · -- a direct upload whose `file_size` is no integer: `int()` raises after the download
      have hdg : lookup o.metadata "dg-file-sha256" ≠ none := fun h => hbr (.inl h)
      obtain ⟨e, he⟩ : ∃ e, fileSizeValue (o.head k) = .error e := by
        rcases h : fileSizeValue (o.head k) with e | n
        exacts [⟨e, rfl⟩, absurd (.inr ⟨hc, n, h⟩) hbr]
      have hview : view E w.store k = none := by
        simp [view, hK, ho, content, hdg, hc, he, Except.toOption]
      exact ⟨fun d hv => by simp [hview] at hv,
        fun _ => ⟨e, _, run_get_direct_sizeError ho hdg hc he hs q⟩⟩
    · -- delta metadata that does not parse: `from_dict` raises
      have hbr' : ¬(lookup o.metadata "dg-file-sha256" = none ∨
          lookup o.metadata "compression" = some "none") :=
        fun h => h.elim (fun h => hbr (.inl h)) hc
      obtain ⟨hc', e, he⟩ := content_of_refKey_none (E := E) (s := w.store) (k := k) hrk hbr'
      refine ⟨fun d hv => by simp [view, hK, ho, hc'] at hv, fun _ => ⟨e, w, ?_⟩⟩
      have hdg : lookup o.metadata "dg-file-sha256" ≠ none := fun h => hbr (.inl h)
      simp [get, run_bind, ho, he, Prog.ofExcept, Option.isNone_iff_eq_none, hc, hdg]
  · -- a delta: `get` decodes it against the reference, as the view does
    obtain ⟨m, -, hmd, -, -⟩ := hd k o ho rk hrk
    have hrs : resolveMetadata o.metadata "ref_sha256" = some m.refSha256 := by
      rw [hmd]; exact (resolveMetadata_toDict m).2.2
    obtain ⟨t, hc, ht⟩ := content_delta hI.valid hI.good hd ho hrk
    obtain ⟨fs, hfs, -, w', t', hget, hfile, ht'⟩ :=
      delta_readable hinj hI.valid hI.good hd ho hrk hrs hq
    have e : t' = t := hinj (ht'.trans (Option.some_inj.1 (hfs.symm.trans ht)))
    have hview : view E w.store k = some t := by simp [view, hK, ho, hc]
    refine ⟨fun d hv => ?_, fun hv => by rw [hview] at hv; cases hv⟩
    rw [hview, Option.some_inj] at hv
    exact ⟨w', hget, by rw [hfile, e, hv]⟩

abbrev Contents := ObjectKey → Option Bytes

theorem eq_update_of_ne {V V' : Contents} {K : ObjectKey} {x : Option Bytes}
    (hne : ∀ k, k ≠ K → V' k = V k) (hK : V' K = x) : V' = Function.update V K x :=
  funext fun k => by
    by_cases hk : k = K
    · rw [hk, Function.update_same, hK]
    · rw [Function.update_noteq hk, hne k hk]

theorem eq_or_eq_update {V V' : Contents} {K : ObjectKey} {x : Option Bytes}
    (hne : ∀ k, k ≠ K → V' k = V k) (hK : V' K = V K ∨ V' K = x) :
    V' = V ∨ V' = Function.update V K x :=
  hK.imp (fun e => (eq_update_of_ne hne e).trans (Function.update_eq_self K V)) (eq_update_of_ne hne)

/-- In every store reached by safe operations, `get` of a key that is no reference key reads the
view: it writes the bytes the view holds there, and raises where the view holds none. -/
theorem safeReachable_get_view (hinj : Function.Injective E.sha256)
    (hdiff : ∀ r t d, E.encode r t = some d → E.decode r d = some t) (h : SafeReachable E svc w)
    {k : ObjectKey} (hK : ¬IsReferenceKey k.key) (name : String) :
    (∀ d, view E w.store k = some d → ∃ w', run E (get k (.path (.user name))) w = (.ok (), w') ∧
      w'.files.lookup (.user name) = some d) ∧
    (view E w.store k = none → ∃ e w', run E (get k (.path (.user name))) w = (.error e, w')) :=
  run_get_view svc hinj hdiff h hK (q := .user name) trivial

theorem safeReachable_get_view_sample :
    SafeReachable exactEngine sample exactTwoWorld ∧ ¬IsReferenceKey "x/b.zip.delta" ∧
    (∀ d, view exactEngine exactTwoWorld.store ⟨"b", "x/b.zip.delta"⟩ = some d →
      ∃ w', run exactEngine (get ⟨"b", "x/b.zip.delta"⟩ (.path (.user "b.zip"))) exactTwoWorld =
        (.ok (), w') ∧ w'.files.lookup (.user "b.zip") = some d) ∧
    (view exactEngine exactTwoWorld.store ⟨"b", "x/b.zip.delta"⟩ = none → ∃ e w',
      run exactEngine (get ⟨"b", "x/b.zip.delta"⟩ (.path (.user "b.zip"))) exactTwoWorld =
        (.error e, w')) :=
  ⟨exactTwoWorld_safeReachable, by decide, safeReachable_get_view sample byteHash_injective
    (Engine.copy_decode_encode _) exactTwoWorld_safeReachable (by decide) "b.zip"⟩

theorem exec_get_view (hinj : Function.Injective E.sha256)
    (hdiff : ∀ r t d, E.encode r t = some d → E.decode r d = some t) (h : SafeReachable E svc w)
    {k : ObjectKey} (hK : ¬IsReferenceKey k.key) {q : LocalPath} {w' : World}
    (hx : Exec E (get k (.path q)) w (.ok ()) w') (hq : q.Before w.nextTemp) :
    ∃ d, view E w.store k = some d ∧ w'.files.lookup q = some d := by
  have hrun := (strict_get k _).exec_ok hx
  obtain ⟨hsome, hnone⟩ := run_get_view svc hinj hdiff h hK hq
  cases hv : view E w.store k with
  | none =>
    obtain ⟨_, _, he⟩ := hnone hv
    rw [hrun] at he
    cases he
  | some d =>
    obtain ⟨_, hr, hf⟩ := hsome d hv
    rw [hrun, Prod.mk.injEq] at hr
    exact ⟨d, rfl, hr.2 ▸ hf⟩

/-- In every store reached by safe operations, every execution of `get` of a key that is no
reference key, faults included, that returns normally wrote the bytes the view holds there: a
failing call makes `get` raise, never return with other bytes. -/
theorem safeReachable_get_exec_view (hinj : Function.Injective E.sha256)
    (hdiff : ∀ r t d, E.encode r t = some d → E.decode r d = some t) (h : SafeReachable E svc w)
    {k : ObjectKey} (hK : ¬IsReferenceKey k.key) {name : String} {w' : World}
    (hx : Exec E (get k (.path (.user name))) w (.ok ()) w') :
    ∃ d, view E w.store k = some d ∧ w'.files.lookup (.user name) = some d :=
  exec_get_view svc hinj hdiff h hK hx trivial

theorem safeReachable_get_exec_view_sample :
    SafeReachable exactEngine sample exactTwoWorld ∧ ¬IsReferenceKey "x/b.zip.delta" ∧
    ∃ w', Exec exactEngine (get ⟨"b", "x/b.zip.delta"⟩ (.path (.user "b.zip"))) exactTwoWorld
        (.ok ()) w' ∧
      ∃ d, view exactEngine exactTwoWorld.store ⟨"b", "x/b.zip.delta"⟩ = some d ∧
        w'.files.lookup (.user "b.zip") = some d := by
  obtain ⟨_, -, -, _, _, hg, -⟩ := exactTwoDelta_readable "b.zip"
  have hx := exec_run (E := exactEngine) (get ⟨"b", "x/b.zip.delta"⟩ (.path (.user "b.zip")))
    exactTwoWorld
  rw [hg] at hx
  exact ⟨exactTwoWorld_safeReachable, by decide, _, hx, safeReachable_get_exec_view sample
    byteHash_injective (Engine.copy_decode_encode _) exactTwoWorld_safeReachable (by decide) hx⟩

theorem put_view_ne (h : SafeReachable E svc w) (f : LocalFile) (ds : DeltaSpace) (o : Option String)
    (hK : ¬IsReferenceKey (svc.putKey ds (originalNameOf f o))) {r : Except Error PutSummary}
    (hx : Exec E (svc.put f ds o) w r w') {k : ObjectKey}
    (hk : k ≠ ⟨ds.bucket, svc.putKey ds (originalNameOf f o)⟩) :
    view E w'.store k = view E w.store k := by
  rcases put_store svc f ds o hx k with e | e | ⟨rfl, -⟩
  · exact SafeStep.view_eq svc h (.put hK hx) e
  · exact absurd e hk
  · simp [view, ds.isReferenceKey_referenceKey]

theorem put_view (hinj : Function.Injective E.sha256)
    (hdiff : ∀ r t d, E.encode r t = some d → E.decode r d = some t) (h : SafeReachable E svc w)
    (f : LocalFile) (ds : DeltaSpace) (o : Option String)
    (hK : ¬IsReferenceKey (svc.putKey ds (originalNameOf f o))) {r : Except Error PutSummary}
    (hx : Exec E (svc.put f ds o) w r w') :
    (∀ k, k ≠ ⟨ds.bucket, svc.putKey ds (originalNameOf f o)⟩ → view E w'.store k = view E w.store k) ∧
    (view E w'.store ⟨ds.bucket, svc.putKey ds (originalNameOf f o)⟩ =
        view E w.store ⟨ds.bucket, svc.putKey ds (originalNameOf f o)⟩ ∨
      view E w'.store ⟨ds.bucket, svc.putKey ds (originalNameOf f o)⟩ = some f.data) := by
  have hs : SafeStep E svc w w' := .put hK hx
  have h' : SafeReachable E svc w' := .step h hs
  have hI' := SafeReachable.inv svc h'
  have hd' := Reachable.decodable svc hinj hdiff (SafeReachable.reachable svc h')
  refine ⟨fun k hk => put_view_ne svc h f ds o hK hx hk, ?_⟩
  -- the object at the put's own key is the one it wrote, read as the file
  have hnew : ∀ {P : ObjectKey → Option StoredObject → Prop} {α : Type} {p : Prog α}
      {r : Except Error α} (K : ObjectKey), Writes P p → Exec E p w r w' →
      (P K (w'.store.lookup K) → view E w'.store K = some f.data) →
      view E w'.store K = view E w.store K ∨ view E w'.store K = some f.data :=
    fun K hp hx hP => ((hp.lookup hx K).imp (hs.view_eq svc h) hP)
  rcases exec_put_cases svc f ds o hx with rfl | ⟨-, hx⟩ | ⟨-, -, hx⟩ | ⟨-, _, -, hx⟩
  · exact .inl rfl
  · refine hnew _ ((writes_uploadDirect svc f ds _ _ _).and
      (writes_uploadDirect_noDgSha svc f ds _ _ _)) hx fun ⟨⟨_, hpw⟩, hne, hdg⟩ => ?_
    obtain ⟨o', ho'⟩ := Option.ne_none_iff_exists'.1 hne
    simp [view, hK, ho', content_direct (.inl (hdg o' ho')), (hpw o' ho').1]
  · refine hnew _ (((writes_createReference svc f ds _ _ _).and
      (writes_createReference_some svc f ds _ _ _)).and
      (writes_createReference_fileSha svc f ds _ _ _)) hx fun ⟨⟨hw, hne⟩, hfs⟩ => ?_
    obtain ⟨o', ho'⟩ := Option.ne_none_iff_exists'.1 hne
    rcases hw with ⟨he, -⟩ | ⟨-, hrk⟩
    · injection he with _ he
      rw [he] at hK
      exact absurd ds.isReferenceKey_referenceKey hK
    · exact view_delta hinj hI'.valid hI'.good hd' hK ho' (hrk o' ho') (hfs o' ho')
  · refine hnew _ (((writes_createDelta svc f ds _ _ _ _).and
      (writes_createDelta_some svc f ds _ _ _ _)).and
      (writes_createDelta_fileSha svc f ds _ _ _ _)) hx fun ⟨⟨⟨_, hrk⟩, hne⟩, hfs⟩ => ?_
    obtain ⟨o', ho'⟩ := Option.ne_none_iff_exists'.1 hne
    exact view_delta hinj hI'.valid hI'.good hd' hK ho' (hrk o' ho').1 (hfs o' ho')

/-- In every store reached by safe operations, every execution of a safe `put`, faults included,
changes the view at the put's own key alone, which then reads as before or as the file. -/
theorem safeReachable_put_view (hinj : Function.Injective E.sha256)
    (hdiff : ∀ r t d, E.encode r t = some d → E.decode r d = some t) (h : SafeReachable E svc w)
    (f : LocalFile) (ds : DeltaSpace) (o : Option String)
    (hK : ¬IsReferenceKey (svc.putKey ds (originalNameOf f o))) {r : Except Error PutSummary}
    (hx : Exec E (svc.put f ds o) w r w') :
    (∀ k, k ≠ ⟨ds.bucket, svc.putKey ds (originalNameOf f o)⟩ → view E w'.store k = view E w.store k) ∧
    (view E w'.store ⟨ds.bucket, svc.putKey ds (originalNameOf f o)⟩ =
        view E w.store ⟨ds.bucket, svc.putKey ds (originalNameOf f o)⟩ ∨
      view E w'.store ⟨ds.bucket, svc.putKey ds (originalNameOf f o)⟩ = some f.data) :=
  put_view svc hinj hdiff h f ds o hK hx

theorem safeReachable_put_view_sample :
    SafeReachable exactEngine sample exactOneWorld ∧
    ¬IsReferenceKey (sample.putKey ⟨"b", "x"⟩ (originalNameOf ⟨"b.zip", [1, 2]⟩ none)) ∧
    (∀ k, k ≠ ⟨"b", sample.putKey ⟨"b", "x"⟩ (originalNameOf ⟨"b.zip", [1, 2]⟩ none)⟩ →
      view exactEngine exactTwoWorld.store k = view exactEngine exactOneWorld.store k) ∧
    (view exactEngine exactTwoWorld.store
        ⟨"b", sample.putKey ⟨"b", "x"⟩ (originalNameOf ⟨"b.zip", [1, 2]⟩ none)⟩ =
      view exactEngine exactOneWorld.store
        ⟨"b", sample.putKey ⟨"b", "x"⟩ (originalNameOf ⟨"b.zip", [1, 2]⟩ none)⟩ ∨
      view exactEngine exactTwoWorld.store
        ⟨"b", sample.putKey ⟨"b", "x"⟩ (originalNameOf ⟨"b.zip", [1, 2]⟩ none)⟩ = some [1, 2]) :=
  ⟨exactOneWorld_safeReachable, by decide, safeReachable_put_view sample byteHash_injective
    (Engine.copy_decode_encode _) exactOneWorld_safeReachable ⟨"b.zip", [1, 2]⟩ ⟨"b", "x"⟩ none
    (by decide) (exec_run _ _)⟩

theorem put_ok_view_key (hinj : Function.Injective E.sha256)
    (hdiff : ∀ r t d, E.encode r t = some d → E.decode r d = some t) (h : SafeReachable E svc w)
    (f : LocalFile) (ds : DeltaSpace) (o : Option String)
    (hK : ¬IsReferenceKey (svc.putKey ds (originalNameOf f o))) {s : PutSummary}
    (hx : Exec E (svc.put f ds o) w (.ok s) w') :
    view E w'.store ⟨ds.bucket, svc.putKey ds (originalNameOf f o)⟩ = some f.data := by
  have h' : SafeReachable E svc w' := .step h (.put hK hx)
  have hI' := SafeReachable.inv svc h'
  obtain ⟨o', ho', ⟨hdata, hdg⟩ | ⟨⟨rk, hrk⟩, hfs⟩⟩ :=
    svc.run_put_ok_lookup f ds o ((strict_put svc f ds o).exec_ok hx)
  · simp [view, hK, ho', content_direct (.inl hdg), hdata]
  · exact view_delta hinj hI'.valid hI'.good
      (Reachable.decodable svc hinj hdiff (SafeReachable.reachable svc h')) hK ho' hrk hfs

/-- In every store reached by safe operations, a `put` that returns normally, in any execution,
is the abstract write of the file at its key: the view afterwards is the view before, updated
there to the file's bytes. -/
theorem safeReachable_put_ok_view (hinj : Function.Injective E.sha256)
    (hdiff : ∀ r t d, E.encode r t = some d → E.decode r d = some t) (h : SafeReachable E svc w)
    (f : LocalFile) (ds : DeltaSpace) (o : Option String)
    (hK : ¬IsReferenceKey (svc.putKey ds (originalNameOf f o))) {s : PutSummary}
    (hx : Exec E (svc.put f ds o) w (.ok s) w') :
    view E w'.store = Function.update (view E w.store)
      ⟨ds.bucket, svc.putKey ds (originalNameOf f o)⟩ (some f.data) :=
  eq_update_of_ne (fun _ hk => put_view_ne svc h f ds o hK hx hk)
    (put_ok_view_key svc hinj hdiff h f ds o hK hx)

def exactTwoSummary : PutSummary :=
  match (run exactEngine (sample.put ⟨"b.zip", [1, 2]⟩ ⟨"b", "x"⟩ none) exactOneWorld).1 with
  | .ok s => s
  | .error _ => { operation := "", bucket := "", key := "", originalName := "", fileSize := 0, fileSha256 := "" }

theorem safeReachable_put_ok_view_sample :
    SafeReachable exactEngine sample exactOneWorld ∧
    ¬IsReferenceKey (sample.putKey ⟨"b", "x"⟩ (originalNameOf ⟨"b.zip", [1, 2]⟩ none)) ∧
    Exec exactEngine (sample.put ⟨"b.zip", [1, 2]⟩ ⟨"b", "x"⟩ none) exactOneWorld
      (.ok exactTwoSummary) exactTwoWorld ∧
    view exactEngine exactTwoWorld.store = Function.update (view exactEngine exactOneWorld.store)
      ⟨"b", sample.putKey ⟨"b", "x"⟩ (originalNameOf ⟨"b.zip", [1, 2]⟩ none)⟩ (some [1, 2]) :=
  have hr : (run exactEngine (sample.put ⟨"b.zip", [1, 2]⟩ ⟨"b", "x"⟩ none) exactOneWorld).1 =
      .ok exactTwoSummary := rfl
  have hx := hr ▸ exec_run (E := exactEngine) (sample.put ⟨"b.zip", [1, 2]⟩ ⟨"b", "x"⟩ none) exactOneWorld
  ⟨exactOneWorld_safeReachable, by decide, hx, safeReachable_put_ok_view sample byteHash_injective
    (Engine.copy_decode_encode _) exactOneWorld_safeReachable ⟨"b.zip", [1, 2]⟩ ⟨"b", "x"⟩ none
    (by decide) hx⟩

theorem delete_view (h : SafeReachable E svc w) {k : ObjectKey}
    (hK : ¬IsReferenceKey k.key) {r : Except Error DeleteResult} (hx : Exec E (delete k) w r w') :
    (view E w'.store = view E w.store ∨ view E w'.store = Function.update (view E w.store) k none) ∧
    ∀ res, r = .ok res → view E w'.store = Function.update (view E w.store) k none := by
  have hs : SafeStep E svc w w' := .delete hK hx
  -- every other key reads as before: its object is untouched, or it is a reference key
  have hne : ∀ k', k' ≠ k → view E w'.store k' = view E w.store k' := fun k' hk' => by
    rcases (writes_delete_own k).lookup hx k' with e | ⟨-, e | e⟩
    · exact hs.view_eq svc h e
    · exact absurd e hk'
    · simp [view, e]
  have hupd : w'.store.lookup k = none →
      view E w'.store = Function.update (view E w.store) k none := fun e =>
    eq_update_of_ne hne (by simp [view, e])
  refine ⟨?_, fun res hr => hupd (exec_delete_ok_lookup hK (hr ▸ hx))⟩
  rcases (writes_delete_own k).lookup hx k with e | ⟨e, -⟩
  · exact eq_or_eq_update hne (.inl (hs.view_eq svc h e))
  · exact .inr (hupd e)

/-- In every store reached by safe operations, every execution of a `delete` of a key that is no
reference key, faults included, leaves the view as it was or removes that key from it, and one
that returns normally removes it: a reference it cleans up is one no remaining delta reads
against. -/
theorem safeReachable_delete_view (h : SafeReachable E svc w) {k : ObjectKey}
    (hK : ¬IsReferenceKey k.key) {r : Except Error DeleteResult} (hx : Exec E (delete k) w r w') :
    (view E w'.store = view E w.store ∨ view E w'.store = Function.update (view E w.store) k none) ∧
    ∀ res, r = .ok res → view E w'.store = Function.update (view E w.store) k none :=
  delete_view svc h hK hx

theorem safeReachable_delete_view_sample :
    SafeReachable exactEngine sample exactTwoWorld ∧ ¬IsReferenceKey "x/b.zip.delta" ∧
    (view exactEngine (run exactEngine (delete ⟨"b", "x/b.zip.delta"⟩) exactTwoWorld).2.store =
        view exactEngine exactTwoWorld.store ∨
      view exactEngine (run exactEngine (delete ⟨"b", "x/b.zip.delta"⟩) exactTwoWorld).2.store =
        Function.update (view exactEngine exactTwoWorld.store) ⟨"b", "x/b.zip.delta"⟩ none) ∧
    ∀ res, (run exactEngine (delete ⟨"b", "x/b.zip.delta"⟩) exactTwoWorld).1 = .ok res →
      view exactEngine (run exactEngine (delete ⟨"b", "x/b.zip.delta"⟩) exactTwoWorld).2.store =
        Function.update (view exactEngine exactTwoWorld.store) ⟨"b", "x/b.zip.delta"⟩ none :=
  ⟨exactTwoWorld_safeReachable, by decide,
    safeReachable_delete_view sample exactTwoWorld_safeReachable (k := ⟨"b", "x/b.zip.delta"⟩)
      (by decide) (exec_run _ _)⟩

theorem deleteRecursive_view (h : SafeReachable E svc w) (b p : String) :
    view E (run E (deleteRecursive b p) w).2.store = fun k =>
      if k.bucket = b ∧ startswith k.key (normalizePrefix p) = true then none
      else view E w.store k := by
  have hs : SafeStep E svc w (run E (deleteRecursive b p) w).2 := .deleteRecursive
  obtain ⟨res, hrun⟩ := (noThrow_deleteRecursive (E := E) b p).run_eq w
  funext ⟨kb, k⟩
  split
  · -- under the prefix: the key was deleted, or is a reference key, or held nothing
    rename_i hin
    obtain ⟨rfl, hpre⟩ := hin
    by_cases hK : IsReferenceKey k
    · simp [view, hK]
    have he : endswith k "/reference.bin" = false := by
      cases e : endswith k "/reference.bin"
      exacts [rfl, absurd (.inr e) hK]
    suffices (run E (deleteRecursive kb p) w).2.store.lookup ⟨kb, k⟩ = none by simp [view, this]
    rcases ho : w.store.lookup ⟨kb, k⟩ with _ | o
    · exact ((writes_deleteRecursive kb p).run_lookup hrun _).elim (·.trans ho) (·.1)
    · exact run_deleteRecursive_removes hrun ho hpre he
  · -- elsewhere nothing was written
    rename_i hout
    exact hs.view_eq svc h (((writes_deleteRecursive b p).run_lookup hrun _).resolve_right
      fun hw => hout ⟨hw.2.1, hw.2.2⟩)

/-- In every store reached by safe operations, `delete_recursive` (whose every call succeeds) is
the abstract removal of the prefix: every key of the bucket under the normalized prefix reads as
nothing afterwards, and every other key reads as before. -/
theorem safeReachable_deleteRecursive_view (h : SafeReachable E svc w) (b p : String) :
    view E (run E (deleteRecursive b p) w).2.store = fun k =>
      if k.bucket = b ∧ startswith k.key (normalizePrefix p) = true then none
      else view E w.store k :=
  deleteRecursive_view svc h b p

theorem safeReachable_deleteRecursive_view_sample :
    SafeReachable exactEngine sample exactTwoWorld ∧
    view exactEngine (run exactEngine (deleteRecursive "b" "x") exactTwoWorld).2.store = fun k =>
      if k.bucket = "b" ∧ startswith k.key (normalizePrefix "x") = true then none
      else view exactEngine exactTwoWorld.store k :=
  ⟨exactTwoWorld_safeReachable,
    safeReachable_deleteRecursive_view sample exactTwoWorld_safeReachable "b" "x"⟩

/-- In every store reached by safe operations, `rehydrate_for_download` of any delta returns a
temp key, whatever the cache holds, and the object it stores there reads as the file the delta
reads as; every other key reads as before. -/
theorem safeReachable_rehydrate_view (hinj : Function.Injective E.sha256)
    (hdiff : ∀ r t d, E.encode r t = some d → E.decode r d = some t) (h : SafeReachable E svc w)
    {b key : String} {o : StoredObject} {rk : String} (hk : w.store.lookup ⟨b, key⟩ = some o)
    (hrk : resolveMetadata o.metadata "ref_key" = some rk) (e : Int) :
    ∃ tk w' d, run E (svc.rehydrateForDownload b key e) w = (.ok (some tk), w') ∧
      startswith tk ".deltaglider/tmp/" = true ∧
      view E w.store ⟨b, key⟩ = some d ∧ view E w'.store ⟨b, tk⟩ = some d ∧
      ∀ k, k ≠ ⟨b, tk⟩ → view E w'.store k = view E w.store k := by
  have hI := SafeReachable.inv svc h
  have hd := Reachable.decodable svc hinj hdiff (SafeReachable.reachable svc h)
  obtain ⟨m, t, hmd, ht, hdec⟩ := hd _ o hk rk hrk
  have hkey : endswith key ".delta" = true := (hI.valid.wf _ o hk).endswith_delta hrk
  obtain ⟨ds, hb, hrk', R, hR, hRs⟩ :=
    reference_of_fromDict hI.valid hI.good hk (hmd ▸ fromDict_toDict m)
  have hR' := (delta_referenceKey hb hrk').symm ▸ hR
  obtain ⟨z, md⟩ := o
  dsimp only at hmd hdec
  subst hmd
  obtain ⟨tk, md', w', hrun, hs, htk, hmd', hst⟩ := svc.run_rehydrateForDownload_delta hk hkey hR' hRs
    (fun c _ hc => hinj (hc.trans hRs.symm)) (hdec _ hRs) ht e
  -- the original reads as its decoding, `t`
  obtain ⟨t', hc, ht'⟩ := content_delta hI.valid hI.good hd hk hrk
  rw [(resolveMetadata_toDict m).1, Option.some_inj, ← ht] at ht'
  have hx := exec_run (E := E) (svc.rehydrateForDownload b key e) w
  rw [hrun] at hx
  refine ⟨tk, w', t, hrun, hs, by simp [view, not_isReferenceKey_of_delta hkey, hk, hc, hinj ht'], ?_,
    fun k hne => ?_⟩
  · simp [view, htk, hst, content_direct (o := ⟨t, md'⟩) (.inl hmd')]
  · exact (SafeStep.rehydrateForDownload hx).view_eq svc h (by rw [hst, AList.lookup_insert_ne hne])

theorem safeReachable_rehydrate_view_sample :
    SafeReachable exactEngine sample exactTwoWorld ∧
    exactTwoWorld.store.lookup ⟨"b", "x/b.zip.delta"⟩ = some exactTwoDelta ∧
    resolveMetadata exactTwoDelta.metadata "ref_key" = some "x/reference.bin" ∧
    ∃ tk w' d, run exactEngine (sample.rehydrateForDownload "b" "x/b.zip.delta" 3600) exactTwoWorld =
        (.ok (some tk), w') ∧ startswith tk ".deltaglider/tmp/" = true ∧
      view exactEngine exactTwoWorld.store ⟨"b", "x/b.zip.delta"⟩ = some d ∧
      view exactEngine w'.store ⟨"b", tk⟩ = some d ∧
      ∀ k, k ≠ ⟨"b", tk⟩ → view exactEngine w'.store k = view exactEngine exactTwoWorld.store k :=
  ⟨exactTwoWorld_safeReachable, exactTwoWorld_lookup_delta, exactTwoDelta_refKey,
    safeReachable_rehydrate_view sample byteHash_injective (Engine.copy_decode_encode _)
      exactTwoWorld_safeReachable exactTwoWorld_lookup_delta exactTwoDelta_refKey 3600⟩

end DeltaService

end DeltaGlider
