import DeltaGlider.App.Cli
import DeltaGlider.Properties.Refinement

/-! # The command line over the view

`put FILE s3://b/p` followed by `get s3://b/p/NAME` leaves a local file `NAME` with the file's
bytes. -/

namespace DeltaGlider

namespace DeltaService

variable (svc : DeltaService) {E : Engine} {w : World}

/-- In every store reached by safe operations, the CLI's `get` of `s3://b/k`, with no output
given, settles on `k` or `k.delta` as its existence check finds them, writes what the view holds
there to that key's default output and exits 0; it exits 1 where the view holds nothing, and
exits 1 touching nothing when neither key holds an object. -/
theorem safeReachable_cliGet_view (hinj : Function.Injective E.sha256)
    (hdiff : ∀ r t d, E.encode r t = some d → E.decode r d = some t) (h : SafeReachable E svc w)
    {b k : String} (hb : '/' ∉ b.data) (hK : ¬IsReferenceKey k) :
    ∃ o w', run E (Cli.get ("s3://" ++ b ++ "/" ++ k) none) w = (.ok o, w') ∧
      (Cli.resolvedKey w.store b k = none → o.exitCode = 1 ∧ w' = w) ∧
      ∀ R, Cli.resolvedKey w.store b k = some R →
        (∀ d, view E w.store ⟨b, R⟩ = some d →
          o.exitCode = 0 ∧ w'.files.lookup (.user (Cli.defaultOutput R)) = some d) ∧
        (view E w.store ⟨b, R⟩ = none → o.exitCode = 1) := by
  rcases hR : Cli.resolvedKey w.store b k with _ | R
  · obtain ⟨line, hrun⟩ := Cli.run_get_unresolved (E := E) hb hR
    exact ⟨_, _, hrun, fun _ => ⟨rfl, rfl⟩, fun _ h => by cases h⟩
  obtain ⟨line, hrun⟩ := Cli.run_get_resolved (E := E) hb hR
  obtain ⟨hok, herr⟩ := run_get_view svc hinj hdiff h (k := ⟨b, R⟩)
    (Cli.not_isReferenceKey_resolvedKey hK hR) (q := .user (Cli.defaultOutput R)) trivial
  rcases hv : view E w.store ⟨b, R⟩ with _ | d
  · -- the service's `get` raises
    obtain ⟨e, w', hg⟩ := herr hv
    rw [hg] at hrun
    refine ⟨_, _, hrun, (fun h => nomatch h), fun R' hR' => ?_⟩
    obtain rfl := Option.some_inj.1 hR'
    exact ⟨(fun _ h => by rw [hv] at h; cases h), fun _ => rfl⟩
  · -- the service's `get` writes the view's bytes
    obtain ⟨w', hg, hf⟩ := hok d hv
    rw [hg] at hrun
    refine ⟨_, _, hrun, (fun h => nomatch h), fun R' hR' => ?_⟩
    obtain rfl := Option.some_inj.1 hR'
    exact ⟨fun d' hd => ⟨rfl, by rw [hv] at hd; rw [hf, hd]⟩, fun h => by rw [hv] at h; cases h⟩

theorem safeReachable_cliGet_view_sample :
    SafeReachable exactEngine sample exactTwoWorld ∧ ¬IsReferenceKey "x/b.zip" ∧
    ∃ o w', run exactEngine (Cli.get ("s3://" ++ "b" ++ "/" ++ "x/b.zip") none) exactTwoWorld =
        (.ok o, w') ∧
      (Cli.resolvedKey exactTwoWorld.store "b" "x/b.zip" = none → o.exitCode = 1 ∧ w' = exactTwoWorld) ∧
      ∀ R, Cli.resolvedKey exactTwoWorld.store "b" "x/b.zip" = some R →
        (∀ d, view exactEngine exactTwoWorld.store ⟨"b", R⟩ = some d →
          o.exitCode = 0 ∧ w'.files.lookup (.user (Cli.defaultOutput R)) = some d) ∧
        (view exactEngine exactTwoWorld.store ⟨"b", R⟩ = none → o.exitCode = 1) :=
  ⟨exactTwoWorld_safeReachable, by decide, safeReachable_cliGet_view sample byteHash_injective
    (Engine.copy_decode_encode _) exactTwoWorld_safeReachable (by decide) (by decide)⟩

section RoundTrip

variable {f : LocalFile} (ds : DeltaSpace)

theorem not_isReferenceKey_putKey (hn : '/' ∉ f.name.data) (hnr : f.name ≠ "reference.bin") :
    ¬IsReferenceKey (svc.putKey ds f.name) := by
  unfold putKey; split
  exacts [ds.not_isReferenceKey_deltaKey _, ds.not_isReferenceKey_directKey hn hnr]

theorem put_lookup_directKey {r : Except Error PutSummary} {w' : World}
    (hx : Exec E (svc.put f ds none) w r w') (hd : svc.shouldUseDelta f.name = true)
    (hnd : endswith f.name ".delta" = false) (hnr : f.name ≠ "reference.bin") :
    w'.store.lookup ⟨ds.bucket, ds.directKey f.name⟩ = w.store.lookup ⟨ds.bucket, ds.directKey f.name⟩ := by
  rcases put_store svc f ds none hx _ with e | e | ⟨e, -⟩
  · exact e
  · -- the put's key is the delta key, which ends in `.delta`
    have he : ds.directKey f.name = ds.deltaKey f.name := by
      simpa [putKey, originalNameOf, hd] using congrArg ObjectKey.key e
    exact absurd he.symm (ds.deltaKey_ne_directKey hnd)
  · exact absurd ((ds.directKey_eq_referenceKey _).1 (congrArg ObjectKey.key e)) hnr

/-- After a `put` that leaves its key reading as the file, the existence check on the plain key
settles on the put's key, and `get` writes the file under its own name. -/
theorem cliGet_after_put (hinj : Function.Injective E.sha256)
    (hdiff : ∀ r t d, E.encode r t = some d → E.decode r d = some t) (h : SafeReachable E svc w)
    (hb : '/' ∉ ds.bucket.data) (hn : '/' ∉ f.name.data) (hn0 : f.name ≠ "") (hn1 : f.name ≠ ".")
    (hnd : endswith f.name ".delta" = false) (hnr : f.name ≠ "reference.bin")
    (hview : view E w.store ⟨ds.bucket, svc.putKey ds f.name⟩ = some f.data)
    (hfree : svc.shouldUseDelta f.name = true →
      w.store.lookup ⟨ds.bucket, ds.directKey f.name⟩ = none) :
    ∃ o w', run E (Cli.get ("s3://" ++ ds.bucket ++ "/" ++ ds.directKey f.name) none) w = (.ok o, w') ∧
      o.exitCode = 0 ∧ w'.files.lookup (.user f.name) = some f.data := by
  have hK := not_isReferenceKey_putKey svc ds hn hnr
  have hsome : (w.store.lookup ⟨ds.bucket, svc.putKey ds f.name⟩).isSome := by
    unfold view at hview
    rw [if_neg hK] at hview
    rcases ho : w.store.lookup ⟨ds.bucket, svc.putKey ds f.name⟩ with _ | o
    · rw [ho] at hview; cases hview
    · simp [ho]
  -- the existence check settles on the put's key, whose default output is the name
  have hR : Cli.resolvedKey w.store ds.bucket (ds.directKey f.name) = some (svc.putKey ds f.name) ∧
      Cli.defaultOutput (svc.putKey ds f.name) = f.name := by
    cases hd : svc.shouldUseDelta f.name
    · have hk : svc.putKey ds f.name = ds.directKey f.name := by simp [putKey, hd]
      rw [hk] at hsome ⊢
      exact ⟨by simp [Cli.resolvedKey, hsome], Cli.defaultOutput_directKey ds hn hn0 hn1 hnd⟩
    · have hk : svc.putKey ds f.name = ds.directKey f.name ++ ".delta" := by
        simp [putKey, hd, ds.deltaKey_eq_directKey_append]
      rw [hk] at hsome ⊢
      refine ⟨?_, ds.deltaKey_eq_directKey_append f.name ▸ Cli.defaultOutput_deltaKey ds hn hn0⟩
      simp [Cli.resolvedKey, hfree hd, ds.endswith_directKey _ (t := ".delta") (by decide), hnd,
        hsome]
  obtain ⟨line, hrun⟩ := Cli.run_get_resolved (E := E) hb hR.1
  obtain ⟨w', hg, hf⟩ := (run_get_view svc hinj hdiff h (k := ⟨ds.bucket, svc.putKey ds f.name⟩) hK
    (q := .user (Cli.defaultOutput (svc.putKey ds f.name))) trivial).1 _ hview
  rw [hg] at hrun
  exact ⟨_, _, hrun, rfl, hR.2 ▸ hf⟩

/-- In every store reached by safe operations, the CLI's `put` of a file into `s3://b/p` followed,
once it exits 0, by the CLI's `get` of `s3://b/p/NAME`, leaves a local file named `NAME` holding
the file's bytes: the upload went to its key, and the existence check finds it there or at the
delta key. -/
theorem safeReachable_cli_put_get (hinj : Function.Injective E.sha256)
    (hdiff : ∀ r t d, E.encode r t = some d → E.decode r d = some t) (h : SafeReachable E svc w)
    (f : LocalFile) {b p : String} (hb : '/' ∉ b.data) (hp : rstripSlash p = p)
    (hn : '/' ∉ f.name.data) (hn0 : f.name ≠ "") (hn1 : f.name ≠ ".")
    (hnd : endswith f.name ".delta" = false) (hnr : f.name ≠ "reference.bin")
    (hfree : svc.shouldUseDelta f.name = true →
      w.store.lookup ⟨b, DeltaSpace.directKey ⟨b, p⟩ f.name⟩ = none) :
    ∃ o w', run E (Cli.put svc f ("s3://" ++ b ++ "/" ++ p)) w = (.ok o, w') ∧
      (o.exitCode = 0 → ∃ o' w'',
        run E (Cli.get ("s3://" ++ b ++ "/" ++ DeltaSpace.directKey ⟨b, p⟩ f.name) none) w' =
          (.ok o', w'') ∧ o'.exitCode = 0 ∧ w''.files.lookup (.user f.name) = some f.data) := by
  have hK := not_isReferenceKey_putKey svc ⟨b, p⟩ hn hnr
  rw [Cli.run_put_url svc f hb hp]
  rcases hrun : run E (svc.put f ⟨b, p⟩ none) w with ⟨_ | s, w1⟩
  · exact ⟨_, _, rfl, fun h => by cases h⟩
  refine ⟨_, _, rfl, fun _ => ?_⟩
  have hx := exec_run (E := E) (svc.put f ⟨b, p⟩ none) w
  rw [hrun] at hx
  exact cliGet_after_put svc ⟨b, p⟩ hinj hdiff (.step h (.put hK hx)) hb hn hn0 hn1 hnd hnr
    (put_ok_view_key svc hinj hdiff h f ⟨b, p⟩ none hK hx)
    fun hd => (put_lookup_directKey svc ⟨b, p⟩ hx hd hnd hnr).trans (hfree hd)

theorem safeReachable_cli_put_get_sample :
    SafeReachable exactEngine sample exactOneWorld ∧
    (sample.shouldUseDelta "b.zip" = true →
      exactOneWorld.store.lookup ⟨"b", DeltaSpace.directKey ⟨"b", "x"⟩ "b.zip"⟩ = none) ∧
    ∃ o w', run exactEngine (Cli.put sample ⟨"b.zip", [1, 2]⟩ ("s3://" ++ "b" ++ "/" ++ "x"))
        exactOneWorld = (.ok o, w') ∧
      (o.exitCode = 0 → ∃ o' w'',
        run exactEngine (Cli.get ("s3://" ++ "b" ++ "/" ++ DeltaSpace.directKey ⟨"b", "x"⟩ "b.zip") none)
          w' = (.ok o', w'') ∧ o'.exitCode = 0 ∧ w''.files.lookup (.user "b.zip") = some [1, 2]) :=
  have hfree : sample.shouldUseDelta "b.zip" = true →
      exactOneWorld.store.lookup ⟨"b", DeltaSpace.directKey ⟨"b", "x"⟩ "b.zip"⟩ = none := fun _ => rfl
  ⟨exactOneWorld_safeReachable, hfree, safeReachable_cli_put_get sample byteHash_injective
    (Engine.copy_decode_encode _) exactOneWorld_safeReachable ⟨"b.zip", [1, 2]⟩ (by decide) (by decide)
    (by decide) (by decide) (by decide) (by decide) (by decide) hfree⟩

end RoundTrip

section Verify

theorem exec_cliVerify (hinj : Function.Injective E.sha256)
    (hdiff : ∀ r t d, E.encode r t = some d → E.decode r d = some t) (h : SafeReachable E svc w)
    {url : String} {r : Except Error Cli.Outcome} {w' : World} (hx : Exec E (Cli.verify url) w r w') :
    ∃ o, r = .ok o ∧ ((o.exitCode = 0 ∧ ∃ res, o.echoes = [.verifyResult res] ∧ res.valid = true ∧
      res.expectedSha256 = res.actualSha256) ∨ (o.exitCode = 1 ∧ ∃ line, o.echoes = [.err line])) := by
  unfold Cli.verify at hx
  split at hx
  · cases hx; exact ⟨_, rfl, .inr ⟨rfl, _, rfl⟩⟩
  split at hx
  · cases hx; exact ⟨_, rfl, .inr ⟨rfl, _, rfl⟩⟩
  rcases Exec.tryCatch_inv hx with ⟨o, rfl, hb⟩ | ⟨_, _, -, hh⟩
  · -- the service's `verify` returned: its result is valid
    rcases Exec.bind_inv hb with ⟨res, _, hv, hp⟩ | ⟨_, he, -⟩
    · cases hp
      obtain ⟨hval, hsha⟩ := exec_verify_valid svc hinj hdiff h hv
      exact ⟨_, rfl, .inl ⟨by simp [hval], res, rfl, hval, hsha⟩⟩
    · cases he
  · -- it raised: the handler prints the error
    cases hh
    exact ⟨_, rfl, .inr ⟨rfl, _, rfl⟩⟩

theorem run_cliVerify_delta (hinj : Function.Injective E.sha256)
    (hdiff : ∀ r t d, E.encode r t = some d → E.decode r d = some t) (h : SafeReachable E svc w)
    {b k : String} (hb : '/' ∉ b.data) {o : StoredObject} {rk rs : String}
    (hk : w.store.lookup ⟨b, k⟩ = some o) (hrk : resolveMetadata o.metadata "ref_key" = some rk)
    (hrs : resolveMetadata o.metadata "ref_sha256" = some rs) :
    ∃ fs w', run E (Cli.verify ("s3://" ++ b ++ "/" ++ k)) w =
      (.ok ⟨[.verifyResult ⟨true, fs, fs, "Integrity verified"⟩], 0⟩, w') := by
  have hI := SafeReachable.inv svc h
  obtain ⟨fs, -, hv, -⟩ := delta_readable hinj hI.valid hI.good
    (Reachable.decodable svc hinj hdiff (SafeReachable.reachable svc h)) hk hrk hrs
    (q := .user "") trivial
  rcases hr : run E (verify ⟨b, k⟩) w with ⟨_, w₁⟩
  rw [hr] at hv
  subst hv
  have hs : startswith ("s3://" ++ b ++ "/" ++ k) "s3://" = true := by
    rw [String.append_assoc, String.append_assoc]
    exact Cli.startswith_url _
  exact ⟨fs, w₁, by simp [Cli.verify, hs, Cli.objectTarget_url hb, run_tryCatch, run_bind, hr]⟩

/-- In every store reached by safe operations, the CLI's `verify`, in every execution, faults
included, returns normally and never reports a failed integrity check: it prints a valid result
and exits 0, or prints one error line and exits 1; and of a delta, when no call fails, it prints a
valid result and exits 0. -/
theorem safeReachable_cliVerify (hinj : Function.Injective E.sha256)
    (hdiff : ∀ r t d, E.encode r t = some d → E.decode r d = some t) (h : SafeReachable E svc w) :
    (∀ url r w', Exec E (Cli.verify url) w r w' →
      ∃ o, r = .ok o ∧ ((o.exitCode = 0 ∧ ∃ res, o.echoes = [.verifyResult res] ∧ res.valid = true ∧
        res.expectedSha256 = res.actualSha256) ∨ (o.exitCode = 1 ∧ ∃ line, o.echoes = [.err line]))) ∧
    (∀ b k o rk rs, '/' ∉ b.data → w.store.lookup ⟨b, k⟩ = some o →
      resolveMetadata o.metadata "ref_key" = some rk → resolveMetadata o.metadata "ref_sha256" = some rs →
      ∃ fs w', run E (Cli.verify ("s3://" ++ b ++ "/" ++ k)) w =
        (.ok ⟨[.verifyResult ⟨true, fs, fs, "Integrity verified"⟩], 0⟩, w')) :=
  ⟨fun _ _ _ hx => exec_cliVerify svc hinj hdiff h hx,
    fun _ _ _ _ _ hb hk hrk hrs => run_cliVerify_delta svc hinj hdiff h hb hk hrk hrs⟩

theorem safeReachable_cliVerify_sample :
    SafeReachable exactEngine sample exactTwoWorld ∧
    (∀ url r w', Exec exactEngine (Cli.verify url) exactTwoWorld r w' →
      ∃ o, r = .ok o ∧ ((o.exitCode = 0 ∧ ∃ res, o.echoes = [.verifyResult res] ∧ res.valid = true ∧
        res.expectedSha256 = res.actualSha256) ∨ (o.exitCode = 1 ∧ ∃ line, o.echoes = [.err line]))) ∧
    (∀ b k o rk rs, '/' ∉ b.data → exactTwoWorld.store.lookup ⟨b, k⟩ = some o →
      resolveMetadata o.metadata "ref_key" = some rk → resolveMetadata o.metadata "ref_sha256" = some rs →
      ∃ fs w', run exactEngine (Cli.verify ("s3://" ++ b ++ "/" ++ k)) exactTwoWorld =
        (.ok ⟨[.verifyResult ⟨true, fs, fs, "Integrity verified"⟩], 0⟩, w')) :=
  ⟨exactTwoWorld_safeReachable, safeReachable_cliVerify sample byteHash_injective
    (Engine.copy_decode_encode _) exactTwoWorld_safeReachable⟩

end Verify

end DeltaService

end DeltaGlider
