import DeltaGlider.Service.Get

/-! # Round trip: what `put` stores, `get` gives back -/

namespace DeltaGlider

/-- A diff engine whose delta is the target itself. -/
def Engine.copy (sha256 : Bytes → String) : Engine := ⟨fun _ t => some t, fun _ d => some d, sha256⟩

theorem Engine.copy_decode_encode (sha256 : Bytes → String) (r t d : Bytes)
    (h : (Engine.copy sha256).encode r t = some d) : (Engine.copy sha256).decode r d = some t :=
  (Option.some_inj.1 h).symm ▸ rfl

def World.empty : World := ⟨∅, ∅, ∅, [], [], 0, 0, 0⟩

namespace DeltaService

def sample : DeltaService :=
  ⟨"deltaglider/test", [".zip", ".jar"], [".tar.gz"], fun t => toString t, String.toInt?⟩

def sampleEngine : Engine := Engine.copy fun d => "sha-" ++ toString d.length

variable (svc : DeltaService) {E : Engine}

theorem get_put_roundtrip (hdiff : ∀ r t d, E.encode r t = some d → E.decode r d = some t)
    (f : LocalFile) (ds : DeltaSpace) (o : Option String) (w : World) {w' : World} {s : PutSummary}
    (hput : run E (svc.put f ds o) w = (.ok s, w')) (name : String) :
    ∃ w'', run E (get ⟨ds.bucket, svc.putKey ds (originalNameOf f o)⟩ (.path (.user name))) w' =
        (.ok (), w'') ∧ w''.files.lookup (.user name) = some f.data := by
  rw [run_put] at hput
  unfold putKey
  split_ifs at hput ⊢ with hd
  · rcases href : w.store.lookup ⟨ds.bucket, ds.referenceKey⟩ with _ | ref <;>
      simp only [href] at hput
    · -- `_create_reference`: the zero-delta decodes against the reference just cached
      rcases hz : E.encode f.data f.data with _ | z
      · simp [run_createReference_encodeFailed svc f ds _ _ _ hz] at hput
      · rw [run_createReference svc f ds _ _ _ hz, Prod.mk.injEq] at hput
        obtain ⟨-, rfl⟩ := hput
        exact get_delta_ok (AList.lookup_insert _) (run_ensureReference_hit _ _
          (by rw [refPrefix_referenceKey]; simp [cacheHas])) (by rw [refPrefix_referenceKey]; simp)
          (hdiff _ _ _ hz) rfl name
    · -- `_create_delta`: the delta decodes against the validated cached reference it used
      obtain ⟨rs, r, z, -, hr, hrs, hz, c, hst⟩ := createDelta_ok svc f ds _ _ _ _ hput
      exact get_delta_ok (by rw [hst]; exact AList.lookup_insert _) (run_ensureReference_hit _ _
        (by rw [refPrefix_referenceKey]; simp [cacheHas, hr, hrs]))
        (by rw [refPrefix_referenceKey]; exact hr) (hdiff _ _ _ hz) rfl name
  · -- `_upload_direct`: the bytes come back as stored, checked against the bare `file_sha256`
    rw [run_uploadDirect, Prod.mk.injEq] at hput
    obtain ⟨-, rfl⟩ := hput
    refine ⟨_, run_get_direct (AList.lookup_insert _) (.inl ?_) (fun s hs _ => ?_) _, by simp⟩
    · simp [lookup, List.lookup_cons]
    · simp [resolveMetadata, lookup, dgKey, List.lookup_cons] at hs
      exact hs

theorem get_put_roundtrip_sample :
    (∀ r t d, sampleEngine.encode r t = some d → sampleEngine.decode r d = some t) ∧
    ∃ s w', run sampleEngine (sample.put ⟨"v1.zip", [1, 2, 3]⟩ ⟨"b", "rel"⟩ none) World.empty =
        (.ok s, w') ∧
      ∃ w'', run sampleEngine (get ⟨"b", sample.putKey ⟨"b", "rel"⟩ "v1.zip"⟩ (.path (.user "out")))
        w' = (.ok (), w'') ∧ w''.files.lookup (.user "out") = some [1, 2, 3] :=
  have hdiff := Engine.copy_decode_encode _
  ⟨hdiff, _, _, rfl,
    get_put_roundtrip sample hdiff ⟨"v1.zip", [1, 2, 3]⟩ ⟨"b", "rel"⟩ none World.empty rfl "out"⟩

end DeltaService

end DeltaGlider
