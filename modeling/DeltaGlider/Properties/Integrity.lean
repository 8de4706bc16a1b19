import DeltaGlider.Properties.RoundTrip

/-! # Integrity of `get` -/

namespace DeltaGlider

namespace DeltaService

variable {E : Engine}

/-- Whatever the store holds, for an object recording a non-empty `file_sha256`: every execution
of `get` into a path that returns normally, whichever calls fail, leaves there bytes with that
SHA; and when the bytes `get` checks lack it (the stored bytes on a direct branch, the decoding on
the delta branch), `get` raises `IntegrityMismatchError`. -/
theorem get_verified (w : World) (k : ObjectKey) {o : StoredObject} {s : String} (name : String)
    (hk : w.store.lookup k = some o) (hs : resolveMetadata o.metadata "file_sha256" = some s)
    (hne : s ≠ "") :
    (∀ w', Exec E (get k (.path (.user name))) w (.ok ()) w' →
      ∃ d, w'.files.lookup (.user name) = some d ∧ E.sha256 d = s) ∧
    ((lookup o.metadata "dg-file-sha256" = none ∨ lookup o.metadata "compression" = some "none") →
      E.sha256 o.data ≠ s → (run E (get k (.path (.user name))) w).1 =
        .error (.integrityMismatch ("SHA256 mismatch: expected " ++ s ++ ", got " ++ E.sha256 o.data))) ∧
    (∀ t, DecodesTo E w k o t → E.sha256 t ≠ s → (run E (get k (.path (.user name))) w).1 =
        .error (.integrityMismatch ("SHA256 mismatch: expected " ++ s ++ ", got " ++ E.sha256 t))) :=
  ⟨fun _ hx => run_get_ok_sha hk hs hne (q := .user name) trivial ((strict_get k _).exec_ok hx),
    fun hbr hm => by rw [run_get_direct_mismatch hk hbr hs hne hm],
    fun _ hdt ht => run_get_delta_mismatch hk hdt hs ht _⟩

def docsWorld : World :=
  (run sampleEngine (sample.put ⟨"notes.txt", [1, 2]⟩ ⟨"b", "docs"⟩ none) World.empty).2

theorem get_verified_sample :
    ∃ o, docsWorld.store.lookup ⟨"b", "docs/notes.txt"⟩ = some o ∧
      resolveMetadata o.metadata "file_sha256" = some "sha-2" ∧ "sha-2" ≠ "" ∧
      (∀ w', Exec sampleEngine (get ⟨"b", "docs/notes.txt"⟩ (.path (.user "out"))) docsWorld (.ok ()) w' →
        ∃ d, w'.files.lookup (.user "out") = some d ∧ sampleEngine.sha256 d = "sha-2") ∧
      ((lookup o.metadata "dg-file-sha256" = none ∨ lookup o.metadata "compression" = some "none") →
        sampleEngine.sha256 o.data ≠ "sha-2" →
        (run sampleEngine (get ⟨"b", "docs/notes.txt"⟩ (.path (.user "out"))) docsWorld).1 =
          .error (.integrityMismatch
            ("SHA256 mismatch: expected " ++ "sha-2" ++ ", got " ++ sampleEngine.sha256 o.data))) ∧
      (∀ t, DecodesTo sampleEngine docsWorld ⟨"b", "docs/notes.txt"⟩ o t →
        sampleEngine.sha256 t ≠ "sha-2" →
        (run sampleEngine (get ⟨"b", "docs/notes.txt"⟩ (.path (.user "out"))) docsWorld).1 =
          .error (.integrityMismatch
            ("SHA256 mismatch: expected " ++ "sha-2" ++ ", got " ++ sampleEngine.sha256 t))) :=
  ⟨_, rfl, rfl, by decide, get_verified docsWorld ⟨"b", "docs/notes.txt"⟩ "out" rfl rfl (by decide)⟩

theorem get_unverified_empty_sha :
    let w : World :=
      { World.empty with store := (∅ : Store).insert ⟨"b", "notes.txt"⟩ ⟨[1, 2], [("file_sha256", "")]⟩ }
    (run sampleEngine (get ⟨"b", "notes.txt"⟩ (.path (.user "out"))) w).1 = .ok () ∧
      ((run sampleEngine (get ⟨"b", "notes.txt"⟩ (.path (.user "out"))) w).2.files.lookup
        (.user "out")).map sampleEngine.sha256 = some "sha-2" :=
  ⟨rfl, by decide⟩

end DeltaService

end DeltaGlider
