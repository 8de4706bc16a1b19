import DeltaGlider.Properties.RoundTrip
import DeltaGlider.System

/-! # Reference cleanup by `delete` and `delete_recursive`

A general theorem for each layout, followed by a world reached by `put` where it shows. -/

namespace DeltaGlider

namespace DeltaService

variable (svc : DeltaService) {E : Engine}

/-- A reference `delete_recursive` deleted while an object recording it survived lies under the
prefix, and so does the object, which was already stored. -/
theorem orphan_under_scope {w w' : World} (hwf : StoreWF w.store) {b p : String}
    {r : Except Error RecursiveDeleteResult} (hx : Exec E (deleteRecursive b p) w r w')
    {key : ObjectKey} {o : StoredObject} {rk : String} (ho : w'.store.lookup key = some o)
    (hrk : resolveMetadata o.metadata "ref_key" = some rk)
    (hpre : w.store.lookup ⟨key.bucket, rk⟩ ≠ none) (hdel : w'.store.lookup ⟨key.bucket, rk⟩ = none) :
    key.bucket = b ∧ startswith key.key (normalizePrefix p) = true ∧ w.store.lookup key = some o := by
  have hw := writes_deleteRecursive b p
  obtain ⟨-, hb, hs⟩ : DeletesUnder b (normalizePrefix p) ⟨key.bucket, rk⟩ none := by
    rcases hw.lookup hx ⟨key.bucket, rk⟩ with h | h
    · exact absurd (h.symm.trans hdel) hpre
    · rwa [hdel] at h
  have hold : w.store.lookup key = some o := by
    rcases hw.lookup hx key with h | ⟨h, -⟩
    · rwa [← h]
    · rw [ho] at h; cases h
  exact ⟨hb, (hwf key o hold).startswith_of_reference hrk (normalizePrefix_slash p) hs, hold⟩

theorem run_deleteRecursive_keeps_references {w w' : World} (hwf : StoreWF w.store) {b p : String}
    {s : RecursiveDeleteResult} (h : run E (deleteRecursive b p) w = (.ok s, w')) {key : ObjectKey}
    {o : StoredObject} {rk : String} (ho : w'.store.lookup key = some o)
    (hrk : resolveMetadata o.metadata "ref_key" = some rk)
    (hpre : w.store.lookup ⟨key.bucket, rk⟩ ≠ none) : w'.store.lookup ⟨key.bucket, rk⟩ ≠ none := by
  intro hdel
  have hx : Exec E (deleteRecursive b p) w (run E (deleteRecursive b p) w).1
      (run E (deleteRecursive b p) w).2 := exec_run _ w
  rw [h] at hx
  obtain ⟨kb, k⟩ := key
  obtain ⟨rfl, hs, hold⟩ := orphan_under_scope hwf hx ho hrk hpre hdel
  have he := endswith_delta_reference ((hwf _ o hold).endswith_delta hrk)
  rw [run_deleteRecursive_removes h hold hs he] at ho
  cases ho

theorem deleteRecursive_orphans_in_scope {w : World} (hr : Reachable E svc w) (b p : String) :
    (∀ r w', Exec E (deleteRecursive b p) w r w' → ∀ key o rk,
      w'.store.lookup key = some o → resolveMetadata o.metadata "ref_key" = some rk →
      w.store.lookup ⟨key.bucket, rk⟩ ≠ none → w'.store.lookup ⟨key.bucket, rk⟩ = none →
      key.bucket = b ∧ startswith key.key (normalizePrefix p) = true) ∧
    (∀ s w', run E (deleteRecursive b p) w = (.ok s, w') → ∀ key o rk,
      w'.store.lookup key = some o → resolveMetadata o.metadata "ref_key" = some rk →
      w.store.lookup ⟨key.bucket, rk⟩ ≠ none → w'.store.lookup ⟨key.bucket, rk⟩ ≠ none) :=
  have hwf := hr.wf svc
  ⟨fun _ _ hx _ _ _ ho hrk hpre hdel => (orphan_under_scope hwf hx ho hrk hpre hdel).imp_right And.left,
    fun _ _ h _ _ _ ho hrk hpre => run_deleteRecursive_keeps_references hwf h ho hrk hpre⟩

def xSpaceWorld : World :=
  (run sampleEngine (sample.put ⟨"a.zip", [1, 2, 3]⟩ ⟨"b", "x"⟩ none) World.empty).2

theorem xSpaceWorld_reachable : Reachable sampleEngine sample xSpaceWorld :=
  .step (.init rfl) (.put (exec_run _ _))

theorem deleteRecursive_orphans_in_scope_sample :
    Reachable sampleEngine sample xSpaceWorld ∧
    ∀ r w', Exec sampleEngine (deleteRecursive "b" "x") xSpaceWorld r w' → ∀ key o rk,
      w'.store.lookup key = some o → resolveMetadata o.metadata "ref_key" = some rk →
      xSpaceWorld.store.lookup ⟨key.bucket, rk⟩ ≠ none → w'.store.lookup ⟨key.bucket, rk⟩ = none →
      key.bucket = "b" ∧ startswith key.key (normalizePrefix "x") = true :=
  ⟨xSpaceWorld_reachable, (deleteRecursive_orphans_in_scope sample xSpaceWorld_reachable "b" "x").1⟩

def failsOnDelta : Call → Bool
  | .delete k => k == ⟨"b", "x/a.zip.delta"⟩
  | _ => false

theorem deleteRecursive_failed_delta_orphaned :
    Reachable sampleEngine sample xSpaceWorld ∧
    ∃ r w', Exec sampleEngine (deleteRecursive "b" "x") xSpaceWorld r w' ∧
      ((w'.store.lookup ⟨"b", "x/a.zip.delta"⟩).bind fun o =>
        resolveMetadata o.metadata "ref_key") = some "x/reference.bin" ∧
      (xSpaceWorld.store.lookup ⟨"b", "x/reference.bin"⟩).isSome ∧
      w'.store.lookup ⟨"b", "x/reference.bin"⟩ = none :=
  ⟨xSpaceWorld_reachable, _, _, exec_runFaulting failsOnDelta (.storage "injected failure") _ _,
    by decide⟩

def rootSpaceWorld : World :=
  (run sampleEngine (sample.put ⟨"v1.zip", [1, 2, 3]⟩ ⟨"b", ""⟩ none) World.empty).2

theorem writes_delete_rootDelta {k : ObjectKey} (hd : endswith k.key ".delta" = true)
    (hs : hasSlash k.key = false) : Writes (fun key v => v = none ∧ key = k) (delete k) := by
  unfold delete deleteDelta
  simp only [endswith_delta_reference hd, hd, hs, Bool.false_eq_true, if_false, if_true,
    Bool.not_false]
  repeat' first
    | exact .pure _
    | exact .throw _
    | exact .perform_none rfl
    | exact .storageDelete ⟨rfl, rfl⟩
    | refine .bind ?_ fun _ => ?_
    | split

/-- So every other object, the root deltaspace's `reference.bin` among them, is as it was after
every execution of that `delete`, whether or not a delta is left that uses it. -/
theorem exec_delete_rootDelta_frame {k : ObjectKey} (hd : endswith k.key ".delta" = true)
    (hs : hasSlash k.key = false) {w w' : World} {r : Except Error DeleteResult}
    (hx : Exec E (delete k) w r w') {k' : ObjectKey} (hne : k' ≠ k) :
    w'.store.lookup k' = w.store.lookup k' :=
  ((writes_delete_rootDelta hd hs).lookup hx k').resolve_right fun h => hne h.2

/-- Deleting the root deltaspace's last delta leaves its `reference.bin` behind. -/
theorem delete_last_root_delta_keeps_reference :
    (run sampleEngine (delete ⟨"b", "v1.zip.delta"⟩) rootSpaceWorld).2.store.keys =
      [⟨"b", "reference.bin"⟩] := by decide

/-- `delete` of the root deltaspace's `reference.bin` takes a branch for objects that are no
reference: whatever records that reference, it reports no dependent and no warning. -/
theorem run_delete_rootReference {w : World} {b : String} {o : StoredObject}
    (hk : w.store.lookup ⟨b, "reference.bin"⟩ = some o) :
    ∃ res, run E (delete ⟨b, "reference.bin"⟩) w =
        (.ok res, { w with store := w.store.erase ⟨b, "reference.bin"⟩ }) ∧
      res.type ≠ "reference" ∧ res.dependentDeltas = 0 ∧ res.warnings = [] := by
  have h1 : endswith "reference.bin" "/reference.bin" = false := by decide
  have h2 : endswith "reference.bin" ".delta" = false := by decide
  unfold delete
  simp only [run_bind, run_storageHead, hk, Option.map_some', h1, h2, Bool.false_eq_true, if_false]
  split <;> simp [run_bind]

/-- Deleting the root `reference.bin` takes the `unknown` branch and counts no dependent, though
`v1.zip.delta` depends on it. -/
theorem delete_root_reference_uncounted :
    ((rootSpaceWorld.store.lookup ⟨"b", "v1.zip.delta"⟩).bind fun o =>
        resolveMetadata o.metadata "ref_key") = some "reference.bin" ∧
    (run sampleEngine (delete ⟨"b", "reference.bin"⟩) rootSpaceWorld).1 =
      .ok { key := "reference.bin", bucket := "b", deleted := true, type := "unknown" } :=
  ⟨by decide, rfl⟩

section ListedReference

variable {b np D S : String} {oR oS : StoredObject}

def ListedReference (b D S : String) (oR oS : StoredObject) (s : Store) : Prop :=
  s.lookup ⟨b, D ++ "/reference.bin"⟩ = some oR ∧ s.lookup ⟨b, S⟩ = some oS

theorem ListedReference.of_lookup_eq {s s' : Store} (h : ∀ k, s'.lookup k = s.lookup k)
    (hs : ListedReference b D S oR oS s) : ListedReference b D S oR oS s' :=
  ⟨(h _).trans hs.1, (h _).trans hs.2⟩

/-- Phase 3 deletes a reference under `np` only when the listing of its deltaspace has nothing
outside `np`: `S`, outside `np` and listed with `D`, keeps `D/reference.bin`. -/
theorem keeps_deleteReferencesIfSafe (hSD : startswith S D = true)
    (hout : startswith S np = false) :
    ∀ refs, (∀ r ∈ refs, startswith r np = true) → ∀ kept result w,
      ListedReference b D S oR oS w.store →
      Keeps E (ListedReference b D S oR oS) (deleteReferencesIfSafe b np refs kept result) w
  | [], _, _, _, _, hw => hw
  | r :: rest, hr, kept, result, w, hw => by
    have ih := keeps_deleteReferencesIfSafe hSD hout rest fun r' h => hr r' (.tail _ h)
    have hrS : r ≠ S := fun h => by rw [← h, hr r (.head _)] at hout; cases hout
    rw [deleteReferencesIfSafe]
    refine Keeps.bind (Keeps.tryCatch (Keeps.read_bind_ok rfl hw fun objs hobjs hw' => ?_)
      fun _ _ h => h) fun _ _ h => ih _ _ _ h
    obtain rfl : listObjects w.store b (refKeyPrefix r) = objs := Except.ok.inj hobjs
    split
    · rename_i hdel
      have hrR : r ≠ D ++ "/reference.bin" := by
        rintro rfl
        rw [refKeyPrefix_append,
          hasRemainingFiles_of_mem (mem_listObjects hw.2 hSD) hout (Ne.symm hrS)] at hdel
        cases hdel
      have he : ListedReference b D S oR oS (w.store.erase ⟨b, r⟩) :=
        ⟨(AList.lookup_erase_ne fun h => hrR (congrArg ObjectKey.key h).symm).trans hw.1,
          (AList.lookup_erase_ne fun h => hrS (congrArg ObjectKey.key h).symm).trans hw.2⟩
      exact Keeps.perform_bind hw' he fun _ _ => he
    · exact hw'

/-- A `…/reference.bin` under the prefix survives every execution of `delete_recursive`, whichever
calls fail, as long as the listing of its deltaspace by string prefix reaches an object outside
the prefix: such an object is never deleted, and phase 3 keeps every reference whose listing has
one, whether or not a delta uses it. -/
theorem exec_deleteRecursive_keeps_listed_reference {p : String} {w w' : World}
    (hR : w.store.lookup ⟨b, D ++ "/reference.bin"⟩ = some oR)
    (hS : w.store.lookup ⟨b, S⟩ = some oS) (hSD : startswith S D = true) (hout : startswith S (normalizePrefix p) = false)
    {r : Except Error RecursiveDeleteResult} (hx : Exec E (deleteRecursive b p) w r w') :
    w'.store.lookup ⟨b, D ++ "/reference.bin"⟩ = some oR := by
  have hI : ∀ s s', (∀ k, s'.lookup k = s.lookup k) → ListedReference b D S oR oS s →
      ListedReference b D S oR oS s' := fun _ _ => ListedReference.of_lookup_eq
  refine ((show Keeps E (ListedReference b D S oR oS) (deleteRecursive b p) w from ?_).exec hx).1
  have hp := normalizePrefix_slash p
  unfold deleteRecursive
  refine Keeps.bind_returns
    (Keeps.of_writes_none (writes_classifyObjectsForDeletion b _) ⟨hR, hS⟩ hI)
    ((returns_classifyObjectsForDeletion b _ hp).and (.bind (.trivial _) fun objs _ =>
      returns_classifyLoop_removed b _ objs {} (by simp [Classified.removed]))) fun c _ hc h1 => ?_
  have hu : ∀ k ∈ c.references ++ c.removed, startswith k (normalizePrefix p) = true :=
    fun k hk => hc.1 k (List.mem_append_left _ hk)
  refine Keeps.bind_returns (Keeps.of_writes_none (writes_addParentReferences b _ _) h1 hI)
    (returns_addParentReferences b _ _ _ (fun ds h => hc.1 _ (List.mem_append_right _
      (List.mem_map_of_mem _ h))) fun r h => hu r (List.mem_append_left _ h)) fun refs _ hr h2 => ?_
  -- phase 2 deletes neither a reference nor an object outside the prefix
  refine Keeps.bind (Keeps.of_writes (writes_deleteEach b _ (P := fun key _ =>
      key ≠ ⟨b, D ++ "/reference.bin"⟩ ∧ key ≠ ⟨b, S⟩) (fun k hk => ⟨fun h => ?_, fun h => ?_⟩) _)
    fun s hs => ⟨?_, ?_⟩) fun _ _ h3 =>
      Keeps.bind (keeps_deleteReferencesIfSafe hSD hout refs hr 0 _ _ h3) fun _ _ h4 =>
        Keeps.of_writes_none ?_ h4 hI
  · have := hc.2 k hk
    rw [(ObjectKey.mk.inj h).2, endswith_append] at this
    cases this
  · have := hu k (List.mem_append_right _ hk)
    rw [(ObjectKey.mk.inj h).2, hout] at this
    cases this
  · exact ((hs _).resolve_right fun h => h.1 rfl).trans h2.1
  · exact ((hs _).resolve_right fun h => h.2 rfl).trans h2.2
  · repeat' first
      | exact .pure _
      | exact .perform_none rfl
      | refine .bind ?_ fun _ => ?_
      | refine .tryCatch ?_ fun _ => ?_
      | split

end ListedReference

def siblingSpacesWorld : World :=
  (run sampleEngine (sample.put ⟨"v2.zip", [1, 2]⟩ ⟨"b", "release"⟩ none)
    (run sampleEngine (sample.put ⟨"v1.zip", [1, 2, 3]⟩ ⟨"b", "rel"⟩ none) World.empty).2).2

/-- `delete_recursive` of `rel` keeps `rel/reference.bin`, which no remaining delta uses: the
listing of `rel` also holds `release`. -/
theorem deleteRecursive_keeps_sibling_reference :
    (run sampleEngine (deleteRecursive "b" "rel") siblingSpacesWorld).2.store.keys.map (·.key) =
      ["release/v2.zip.delta", "release/reference.bin", "rel/reference.bin"] ∧
    ((siblingSpacesWorld.store.lookup ⟨"b", "release/v2.zip.delta"⟩).bind fun o =>
        resolveMetadata o.metadata "ref_key") = some "release/reference.bin" := by decide

end DeltaService

end DeltaGlider
