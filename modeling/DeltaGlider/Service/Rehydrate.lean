import DeltaGlider.Service.Get
import Mathlib.Tactic.LiftLets
import Mathlib.Algebra.Order.Ring.Nat

/-! # `rehydrate_for_download` and `purge_temp_files` (`service.py`) -/

namespace DeltaGlider

namespace DeltaService

variable (svc : DeltaService)

def rehydrateForDownload (bucket key : String) (expiresInSeconds : Int) :
    Prog (Option String) := do
  let objHead ← Storage.head ⟨bucket, key⟩
  let (objHead, key) ←
    if objHead.isNone ∧ endswith key ".delta" = false then do
      let deltaHead ← Storage.head ⟨bucket, key ++ ".delta"⟩
      pure (deltaHead, if deltaHead.isSome then key ++ ".delta" else key)
    else pure (objHead, key)
  let some objHead := objHead | throw (.notFound ("Object not found: " ++ key))
  let isDelta := endswith key ".delta"
  let hasDgMetadata := (lookup objHead.metadata "dg-file-sha256").isSome
  if !isDelta && !hasDgMetadata then return none
  let originalName := if endswith key ".delta" then removesuffix key ".delta" else key
  let tempFilename := (← uuid4) ++ "_" ++ pathName originalName
  let tempKey := ".deltaglider/tmp/" ++ tempFilename
  withTemp fun tmpdir => do
    let decompressedPath := LocalPath.scratch tmpdir "decompressed"
    get ⟨bucket, key⟩ (.path decompressedPath)
    let expiresAt := (← Clock.now) + expiresInSeconds
    let createdAt ← Clock.now
    let metadata : Metadata :=
      [("dg-expires-at", svc.isoformat expiresAt), ("dg-original-key", key),
        ("dg-original-filename", pathName originalName), ("dg-rehydrated", "true"),
        ("dg-created-at", svc.isoformat createdAt)]
    Storage.put ⟨bucket, tempKey⟩ (← readFile decompressedPath) metadata
  pure (some tempKey)

def recordError (result : PurgeResult) (obj : ObjectHead) (e : Error) : PurgeResult :=
  { result with errorCount := result.errorCount + 1,
                errors := result.errors ++ ["Error processing " ++ obj.key ++ ": " ++ e.message] }

def purgeOne (bucket : String) (obj : ObjectHead) (result : PurgeResult) : Prog PurgeResult := do
  let some objHead ← Storage.head ⟨bucket, obj.key⟩ | pure result
  let some expiresAtStr := lookup objHead.metadata "dg-expires-at" | pure result
  if expiresAtStr = "" then return result
  let some expiresAt := svc.fromisoformat (replaceZ expiresAtStr) | pure result
  if (← Clock.now) ≥ expiresAt then
    let result := { result with expiredCount := result.expiredCount + 1 }
    tryCatch
      (do
        Storage.delete ⟨bucket, obj.key⟩
        pure { result with deletedCount := result.deletedCount + 1,
                           totalSizeFreed := result.totalSizeFreed + obj.size })
      fun e => pure (recordError result obj e)
  else pure result

def purgeLoop (bucket keyPrefix : String) : List ObjectHead → PurgeResult → Prog PurgeResult
  | [], result => pure result
  | obj :: rest, result => do
    if startswith obj.key keyPrefix = false then purgeLoop bucket keyPrefix rest result
    else
      let result ← tryCatch (svc.purgeOne bucket obj result) fun e =>
        pure (recordError result obj e)
      purgeLoop bucket keyPrefix rest result

def purgeTempFiles (bucket : String) : Prog PurgeResult := do
  let keyPrefix := ".deltaglider/tmp/"
  svc.purgeLoop bucket keyPrefix (← Storage.list bucket keyPrefix) { bucket, keyPrefix }

section Spec

theorem writes_rehydrateForDownload (bucket key : String) (expiresInSeconds : Int) :
    Writes (fun k v => ¬IsReferenceKey k.key ∧ ∀ o, v = some o →
        resolveMetadata o.metadata "ref_key" = none ∧ resolveMetadata o.metadata "file_sha256" = none)
      (svc.rehydrateForDownload bucket key expiresInSeconds) := by
  unfold rehydrateForDownload
  repeat' first
    | exact .pure _
    | exact .throw _
    | exact .perform_none rfl
    | exact writes_get _ _
    | exact .storagePut ⟨by
        rw [← String.append_assoc, ← String.append_assoc]
        exact not_isReferenceKey_underscore (slash_not_mem_pathName _), fun o ho => by
          cases ho; exact ⟨rfl, rfl⟩⟩
    | refine .bind ?_ fun _ => ?_
    | refine .withTemp fun _ => ?_
    | refine .tryFinally ?_ ?_
    | split
    | dsimp only

theorem writes_purgeOne (bucket : String) (obj : ObjectHead) (result : PurgeResult) :
    Writes (fun k v => v = none ∧ k = ⟨bucket, obj.key⟩) (svc.purgeOne bucket obj result) := by
  unfold purgeOne
  repeat' first
    | exact .pure _
    | exact .perform_none rfl
    | exact .storageDelete ⟨rfl, rfl⟩
    | refine .bind ?_ fun _ => ?_
    | refine .tryCatch ?_ fun _ => ?_
    | split

theorem writes_purgeTempFiles_temp (bucket : String) :
    Writes (fun k v => v = none ∧ k.bucket = bucket ∧ startswith k.key ".deltaglider/tmp/" = true)
      (svc.purgeTempFiles bucket) :=
  .bind (.perform_none rfl) fun _ => loop _ _
where
  loop : ∀ objs result, Writes (fun k v => v = none ∧ k.bucket = bucket ∧
      startswith k.key ".deltaglider/tmp/" = true) (svc.purgeLoop bucket ".deltaglider/tmp/" objs result)
    | [], _ => .pure _
    | obj :: rest, _ => by
      rw [purgeLoop]
      split
      · exact loop rest _
      · rename_i hobj
        refine .bind (.tryCatch ((svc.writes_purgeOne _ obj _).mono fun k v ⟨hv, hk⟩ => ?_)
          fun _ => .pure _) fun _ => loop rest _
        subst hk
        exact ⟨hv, rfl, Bool.not_eq_false _ ▸ hobj⟩

theorem writes_purgeTempFiles (bucket : String) :
    Writes (fun _ v => v = none) (svc.purgeTempFiles bucket) :=
  (svc.writes_purgeTempFiles_temp bucket).mono fun _ _ h => h.1

/-! ## What the purge deletes -/

variable {E : Engine}

theorem run_rehydrateForDownload_some {bucket key tk : String} {s : Int} {w w' : World}
    (h : run E (svc.rehydrateForDownload bucket key s) w = (.ok (some tk), w')) :
    startswith tk ".deltaglider/tmp/" = true ∧ ∃ o, w'.store.lookup ⟨bucket, tk⟩ = some o ∧
      lookup o.metadata "dg-expires-at" = some (svc.isoformat (w.clock + s)) := by
  unfold rehydrateForDownload at h
  rw [run_bind_eq_ok] at h
  obtain ⟨oh, w1, h1, h⟩ := h
  obtain rfl : w = w1 := (Prod.mk.inj h1).2
  lift_lets at h
  extract_lets K at h
  -- the part after the choice of key, from any world at the same clock
  have tail : ∀ y w2, w2.clock = w.clock → run E (K y) w2 = (.ok (some tk), w') →
      startswith tk ".deltaglider/tmp/" = true ∧ ∃ o, w'.store.lookup ⟨bucket, tk⟩ = some o ∧
        lookup o.metadata "dg-expires-at" = some (svc.isoformat (w.clock + s)) := by
    intro y w2 hc h
    simp only [K] at h
    split at h
    · split at h
      · cases h
      simp only [run_bind_eq_ok, run_pure, run_uuid4, run_now, run_storagePut, run_readFile,
        run_withTemp_eq_ok, Prod.mk.injEq, Except.ok.injEq, Option.some_inj, true_and, and_assoc,
        exists_eq_left, exists_eq_left', exists_and_left, exists_eq_right] at h
      obtain ⟨_, _, _, ⟨_, ⟨_, w3, hget, d, w4, hread, rfl⟩, rfl⟩, rfl, rfl⟩ := h
      have hclock : w3.clock = w.clock := by
        rw [← hc]; exact (congrArg (fun r => r.2.clock) hget).symm.trans (run_clock _ _)
      obtain rfl : w3 = w4 := by split at hread <;> cases hread; rfl
      exact ⟨startswith_append _ _, _, AList.lookup_insert _, by simp [lookup, hclock]⟩
    · cases h
  split at h <;>
    simp only [run_bind_eq_ok, run_storageHead, run_pure, Prod.mk.injEq, Except.ok.injEq, and_assoc,
      exists_eq_left, exists_eq_left', exists_and_left, exists_eq_right] at h
  all_goals exact tail (_, _) w rfl h

/-- Rehydrating a delta whose reference is present and decodes it, with a valid cached copy being
that reference: the decoded bytes go up under a fresh temp key, as an object without DeltaGlider
SHA metadata. -/
theorem run_rehydrateForDownload_delta {w : World} {b key : String} {z t : Bytes}
    {m : DeltaMeta} {R : StoredObject} (hk : w.store.lookup ⟨b, key⟩ = some ⟨z, m.toDict⟩)
    (hkey : endswith key ".delta" = true)
    (hR : w.store.lookup ⟨b, DeltaSpace.referenceKey ⟨b, refPrefix m.refKey⟩⟩ = some R)
    (hRs : E.sha256 R.data = m.refSha256)
    (hc : ∀ c, w.cache.lookup (b, refPrefix m.refKey) = some c → E.sha256 c = m.refSha256 →
      c = R.data)
    (hdec : E.decode R.data z = some t) (ht : E.sha256 t = m.fileSha256) (e : Int) :
    ∃ tk md w', run E (svc.rehydrateForDownload b key e) w = (.ok (some tk), w') ∧
      startswith tk ".deltaglider/tmp/" = true ∧ ¬IsReferenceKey tk ∧
      lookup md "dg-file-sha256" = none ∧
      w'.store = w.store.insert ⟨b, tk⟩ ⟨t, md⟩ := by
  have h1 : w.nextTemp ≠ w.nextTemp + 1 := by omega
  have h2 : w.nextTemp ≠ w.nextTemp + 1 + 1 := by omega
  cases hit : cacheHas E w.cache b (refPrefix m.refKey) m.refSha256
  · simp only [rehydrateForDownload, get, Option.isNone_iff_eq_none, Prog.ofExcept, ensureReference,
        Bool.not_eq_eq_eq_not, Bool.not_true, cacheReference, ne_eq, ite_not, emit,
        decide_eq_true_eq, run_withTemp, run_bind, run_storageHead, hk, Option.map_some',
        StoredObject.head_metadata, lookup_toDict_dgFileSha256, reduceCtorEq, ↓reduceIte,
        lookup_toDict_compression, fromDict_toDict, run_pure', run_hasRef, hit, run_mkTemp,
        run_storageGet, hR, run_sha256, hRs, run_pure, run_writeRef, run_rmTemp,
        List.erase_cons_head, run_getValidatedRef, AList.lookup_insert, run_tryCatch, run_decode,
        hdec, ht, run_writeFile, run_readFile, h2, not_false_eq_true, lookup_removeScratch_ne,
        decide_True, run_throw, hkey, run_uuid4, run_now, run_storagePut, and_self, if_false,
        false_and, and_false, Bool.not_true, Bool.false_and, Bool.false_eq_true, Option.isSome_some]
    refine ⟨_, _, _, rfl, startswith_append _ _, ?_, ?_, rfl⟩
    · rw [← String.append_assoc, ← String.append_assoc]
      exact not_isReferenceKey_underscore (slash_not_mem_pathName _)
    · rfl
  · obtain ⟨c, hl, hcs⟩ := cacheHas_iff.1 hit
    obtain rfl := hc c hl hcs
    simp only [rehydrateForDownload, get, Option.isNone_iff_eq_none, Prog.ofExcept, ensureReference,
        Bool.not_eq_eq_eq_not, Bool.not_true, ne_eq, ite_not, emit,
        decide_eq_true_eq, run_withTemp, run_bind, run_storageHead, hk, Option.map_some',
        StoredObject.head_metadata, lookup_toDict_dgFileSha256, reduceCtorEq, ↓reduceIte,
        lookup_toDict_compression, fromDict_toDict, run_pure', run_hasRef, hit, run_mkTemp, hl, hcs,
        run_storageGet, hR, run_sha256, hRs, run_pure, run_writeRef, run_rmTemp,
        List.erase_cons_head, run_getValidatedRef, AList.lookup_insert, run_tryCatch, run_decode,
        hdec, ht, run_writeFile, run_readFile, h1, not_false_eq_true, lookup_removeScratch_ne,
        decide_True, run_throw, hkey, run_uuid4, run_now, run_storagePut, and_self, if_false,
        false_and, and_false, Bool.not_true, Bool.false_and, Bool.false_eq_true, Option.isSome_some]
    refine ⟨_, _, _, rfl, startswith_append _ _, ?_, ?_, rfl⟩
    · rw [← String.append_assoc, ← String.append_assoc]
      exact not_isReferenceKey_underscore (slash_not_mem_pathName _)
    · rfl

/-- The stores a rehydration from a store `s` can leave: `s` itself, or `s` with one object more,
under a temp key that is no reference key, recording no DeltaGlider SHA and holding the bytes
that a normal return of `get` of the key, or of the key with `.delta` appended, left at a scratch
path outside the directories it removes, from a world with store `s`. -/
def Rehydrated (E : Engine) (s : Store) (bucket key : String) (s' : Store) : Prop :=
  s' = s ∨ ∃ key' tk md q d w₁ w₂, s' = s.insert ⟨bucket, tk⟩ ⟨d, md⟩ ∧
    startswith tk ".deltaglider/tmp/" = true ∧ ¬IsReferenceKey tk ∧
    lookup md "dg-file-sha256" = none ∧ (key' = key ∨ key' = key ++ ".delta") ∧
    w₁.store = s ∧ q.Before w₁.nextTemp ∧
    Exec E (get ⟨bucket, key'⟩ (.path q)) w₁ (.ok ()) w₂ ∧ w₂.files.lookup q = some d

theorem exec_rehydrateForDownload {bucket key : String} {s : Int} {r : Except Error (Option String)}
    {w w' : World} (hx : Exec E (svc.rehydrateForDownload bucket key s) w r w') :
    Rehydrated E w.store bucket key w'.store := by
  unfold rehydrateForDownload at hx
  refine (Exec.read_bind_inv (by rfl) hx).elim (fun ⟨oh, _, hs1, hx⟩ => ?_) .inl
  lift_lets at hx
  extract_lets K at hx
  -- the part after the choice of the key, from any world with the same store
  have tail : ∀ (y : Option ObjectHead × String) (w₁ : World), w₁.store = w.store →
      (y.2 = key ∨ y.2 = key ++ ".delta") → Exec E (K y) w₁ r w' →
      Rehydrated E w.store bucket key w'.store := by
    intro ⟨oh, key'⟩ w₁ hs₁ hkey hx
    simp only [K] at hx
    split at hx
    rotate_left
    · cases hx; exact .inl hs₁
    split at hx
    · cases hx; exact .inl hs₁
    rw [Prog.pure_bind] at hx
    refine (Exec.read_bind_inv (by rfl) hx).elim (fun ⟨u, _, hs2, hx⟩ => ?_)
      fun hs => .inl (hs.trans hs₁)
    obtain ⟨_, hx⟩ := Exec.bind_pure_inv (fun _ => ⟨_, rfl⟩) hx
    unfold withTemp at hx
    refine (Exec.read_bind_inv (by rfl) hx).elim (fun ⟨t, ht, hs3, hx⟩ => ?_)
      fun hs => .inl (hs.trans (hs2.trans hs₁))
    have base := hs3.trans (hs2.trans hs₁)
    -- the removal of the directory leaves the store to the body
    obtain ⟨_, w4, _, hb, hrm⟩ := Exec.tryFinally_inv hx
    have hs4 : w'.store = w4.store :=
      (Writes.perform_none (P := fun _ _ => False) (by rfl)).store_eq hrm
    rcases Exec.bind_inv hb with ⟨⟨⟩, w5, hget, hb⟩ | ⟨_, -, hget⟩
    rotate_left
    · exact .inl (hs4.trans (((writes_get _ _).store_eq hget).trans base))
    have hs5 := ((writes_get _ _).store_eq hget).trans base
    -- two clock reads and the read of the scratch file, then the upload
    refine (Exec.read_bind_inv (by rfl) hb).elim (fun ⟨_, _, _, hb⟩ => ?_)
      fun hs => .inl (hs4.trans (hs.trans hs5))
    refine (Exec.read_bind_inv (by rfl) hb).elim (fun ⟨_, _, _, hb⟩ => ?_)
      fun hs => .inl (hs4.trans (hs.trans hs5))
    refine (Exec.read_bind_inv (by rfl) hb).elim (fun ⟨d, hd, hsd, hb⟩ => ?_)
      fun hs => .inl (hs4.trans (hs.trans hs5))
    have hfile : w5.files.lookup (.scratch t "decompressed") = some d := Call.interp_readFile_ok hd
    rcases Exec.perform_inv hb with ⟨-, rfl⟩ | ⟨_, -, rfl⟩
    rotate_left
    · exact .inl (hs4.trans (hsd.trans hs5))
    have hq : (LocalPath.scratch t "decompressed").Before
        (Call.interp E .mkTemp (Call.interp E .uuid4 w₁).2).2.nextTemp := by
      dsimp only [Call.interp] at ht ⊢
      obtain rfl := Except.ok.inj ht
      exact Nat.lt_succ_self _
    exact .inr ⟨key', _, _, _, d, _, w5, hs4.trans (congrArg (AList.insert _ _) (hsd.trans hs5)),
      startswith_append _ _,
      by rw [← String.append_assoc, ← String.append_assoc]
         exact not_isReferenceKey_underscore (slash_not_mem_pathName _),
      by rfl, hkey, base, hq, hget, hfile⟩
  split at hx
  · refine (Exec.read_bind_inv (by rfl) hx).elim (fun ⟨dh, _, hs2, hx⟩ => ?_)
      fun hs => .inl (hs.trans hs1)
    rw [Prog.pure_bind] at hx
    refine tail (dh, _) _ (hs2.trans hs1) ?_ hx
    dsimp only
    split <;> simp
  · rw [Prog.pure_bind] at hx
    exact tail (oh, key) _ hs1 (.inl rfl) hx

/-- The expiry a temp object's metadata records, as the purge reads it: `None` when it is missing,
empty or unparsable. -/
def expiryOf (md : Metadata) : Option Int :=
  match lookup md "dg-expires-at" with
  | some s => if s = "" then none else svc.fromisoformat (replaceZ s)
  | none => none

def expiredAt (now : Int) (md : Metadata) : Bool :=
  match svc.expiryOf md with
  | some e => decide (e ≤ now)
  | none => false

theorem expiredAt_iff_of_isoformat {md : Metadata} {t now : Int}
    (h : lookup md "dg-expires-at" = some (svc.isoformat t)) (hne : svc.isoformat t ≠ "")
    (hread : svc.fromisoformat (replaceZ (svc.isoformat t)) = some t) :
    svc.expiredAt now md = true ↔ t ≤ now := by
  simp [expiredAt, expiryOf, h, hne, hread]

/-- The objects that `purge_temp_files(bucket)` at clock `now` should delete: temp objects of the
bucket whose expiry has passed. -/
def purgeable (now : Int) (bucket : String) (k : ObjectKey) (o : StoredObject) : Bool :=
  k.bucket = bucket && startswith k.key ".deltaglider/tmp/" && svc.expiredAt now o.metadata

theorem run_purgeOne {bucket : String} {obj : ObjectHead} {o : StoredObject} {w : World}
    (ho : w.store.lookup ⟨bucket, obj.key⟩ = some o) (result : PurgeResult) :
    run E (svc.purgeOne bucket obj result) w =
      if svc.expiredAt w.clock o.metadata then
        (.ok { result with expiredCount := result.expiredCount + 1,
                           deletedCount := result.deletedCount + 1,
                           totalSizeFreed := result.totalSizeFreed + obj.size },
          { w with store := w.store.erase ⟨bucket, obj.key⟩ })
      else (.ok result, w) := by
  unfold purgeOne expiredAt expiryOf
  rcases he : lookup o.metadata "dg-expires-at" with _ | s
  · simp only [run_bind, run_storageHead, ho, Option.map_some', StoredObject.head_metadata, he,
      run_pure, Bool.false_eq_true, ↓reduceIte]
  by_cases hs : s = ""
  · simp only [run_bind, run_storageHead, ho, Option.map_some', StoredObject.head_metadata, he,
      hs, run_pure, Bool.false_eq_true, ↓reduceIte]
  rcases hp : svc.fromisoformat (replaceZ s) with _ | e
  · simp only [run_bind, run_storageHead, ho, Option.map_some', StoredObject.head_metadata, he,
      hs, hp, run_pure, Bool.false_eq_true, ↓reduceIte]
  by_cases hle : e ≤ w.clock <;>
    simp only [ge_iff_le, run_bind, run_storageHead, ho, Option.map_some',
      StoredObject.head_metadata, he, hs, hp, run_pure, run_now, hle, run_tryCatch,
      run_storageDelete, decide_True, decide_False, Bool.false_eq_true, ↓reduceIte]

def Listed (s : Store) (bucket : String) (objs : List ObjectHead) : Prop :=
  ∀ obj ∈ objs, ∃ o, s.lookup ⟨bucket, obj.key⟩ = some o ∧ o.metadata = obj.metadata

theorem Listed.erase {s : Store} {bucket k : String} {objs : List ObjectHead}
    (h : Listed s bucket objs) (hk : k ∉ objs.map (·.key)) :
    Listed (s.erase ⟨bucket, k⟩) bucket objs := fun obj hobj => by
  have hne : (⟨bucket, obj.key⟩ : ObjectKey) ≠ ⟨bucket, k⟩ := fun e => by
    have e' : obj.key = k := congrArg ObjectKey.key e
    exact hk (e' ▸ List.mem_map_of_mem _ hobj)
  rw [AList.lookup_erase_ne hne]
  exact h obj hobj

theorem listed_listObjects (s : Store) (bucket keyPrefix : String) :
    Listed s bucket (listObjects s bucket keyPrefix) := fun _ hobj => by
  obtain ⟨k, o, hk, rfl, -, rfl⟩ := mem_listObjects_iff.1 hobj
  exact ⟨o, hk, rfl⟩

theorem run_purgeLoop (bucket pfx : String) :
    ∀ (objs : List ObjectHead) (result : PurgeResult) (w : World),
      (objs.map (·.key)).Nodup → Listed w.store bucket objs →
      run E (svc.purgeLoop bucket pfx objs result) w =
        let gone := objs.filter fun obj =>
          startswith obj.key pfx && svc.expiredAt w.clock obj.metadata
        (.ok { result with expiredCount := result.expiredCount + gone.length,
                           deletedCount := result.deletedCount + gone.length,
                           totalSizeFreed := result.totalSizeFreed + (gone.map (·.size)).sum },
          { w with store := gone.foldl (fun s obj => s.erase ⟨bucket, obj.key⟩) w.store })
  | [], _, _, _, _ => rfl
  | obj :: rest, result, w, hnd, hl => by
    rw [List.map_cons, List.nodup_cons] at hnd
    obtain ⟨o, ho, hmd⟩ := hl obj (List.mem_cons_self _ _)
    have hrest : Listed w.store bucket rest := fun o' h => hl o' (List.mem_cons_of_mem _ h)
    rw [purgeLoop]
    by_cases hp : startswith obj.key pfx = true
    · rw [if_neg (by simp [hp]), run_bind, run_tryCatch, run_purgeOne svc ho]
      by_cases hx : svc.expiredAt w.clock o.metadata = true
      · simp only [hx, if_true]
        rw [run_purgeLoop bucket pfx rest _ _ hnd.2 (hrest.erase hnd.1)]
        rw [hmd] at hx
        cases result
        simp [List.filter_cons, hp, hx, Nat.add_assoc, Nat.add_comm 1]
      · simp only [hx, if_false, Bool.false_eq_true]
        rw [run_purgeLoop bucket pfx rest _ w hnd.2 hrest]
        rw [hmd] at hx
        simp [List.filter_cons, hp, hx]
    · rw [if_pos (by simpa using hp), run_purgeLoop bucket pfx rest result w hnd.2 hrest]
      simp [List.filter_cons, hp]

/-- The purge deletes the listed temp objects that have expired at the clock, and nothing else. -/
theorem run_purgeTempFiles (bucket : String) (w : World) :
    run E (svc.purgeTempFiles bucket) w =
      let gone := (listObjects w.store bucket ".deltaglider/tmp/").filter fun obj =>
        svc.expiredAt w.clock obj.metadata
      (.ok { bucket, keyPrefix := ".deltaglider/tmp/", expiredCount := gone.length,
             deletedCount := gone.length, totalSizeFreed := (gone.map (·.size)).sum },
        { w with store := gone.foldl (fun s obj => s.erase ⟨bucket, obj.key⟩) w.store }) := by
  have hpfx : (listObjects w.store bucket ".deltaglider/tmp/").filter (fun obj =>
      startswith obj.key ".deltaglider/tmp/" && svc.expiredAt w.clock obj.metadata) =
      (listObjects w.store bucket ".deltaglider/tmp/").filter fun obj =>
        svc.expiredAt w.clock obj.metadata := List.filter_congr fun obj hobj => by
    obtain ⟨k, o, -, -, hs, rfl⟩ := mem_listObjects_iff.1 hobj
    simp [StoredObject.head, hs]
  rw [purgeTempFiles, run_bind, run_storageList]
  dsimp only
  rw [run_purgeLoop svc bucket _ _ _ _ (nodup_listObjects_keys _ _ _) (listed_listObjects _ _ _)]
  simp only [hpfx, Nat.zero_add]

theorem lookup_foldl_erase_heads (bucket : String) (k : ObjectKey) :
    ∀ (objs : List ObjectHead) (s : Store),
      (objs.foldl (fun s obj => s.erase ⟨bucket, obj.key⟩) s).lookup k =
        if k.bucket = bucket ∧ k.key ∈ objs.map (·.key) then none else s.lookup k
  | [], s => by simp
  | obj :: rest, s => by
    rw [List.foldl_cons, lookup_foldl_erase_heads bucket k rest]
    by_cases hk : k = ⟨bucket, obj.key⟩
    · subst hk; simp
    · have hk' : ¬(k.bucket = bucket ∧ k.key = obj.key) := fun h => hk (by cases k; simp_all)
      rw [AList.lookup_erase_ne hk]
      by_cases hb : k.bucket = bucket <;> simp_all

end Spec

end DeltaService

end DeltaGlider
