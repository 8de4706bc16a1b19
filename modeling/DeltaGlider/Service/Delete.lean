import DeltaGlider.Service.Get

/-! # `DeltaService.delete` and `delete_recursive` (`service.py`) -/

namespace DeltaGlider

namespace DeltaService

def collectDependents (objectKey : ObjectKey) : List ObjectHead → Prog (List String)
  | [] => pure []
  | obj :: rest => do
    let found ←
      if endswith obj.key ".delta" ∧ obj.key ≠ objectKey.key then do
        let deltaHead ← Storage.head ⟨objectKey.bucket, obj.key⟩
        pure (decide ((deltaHead.bind fun h => lookup h.metadata "ref_key") = some objectKey.key))
      else pure false
    let others ← collectDependents objectKey rest
    pure (if found then obj.key :: others else others)

def deleteReference (objectKey : ObjectKey) (result : DeleteResult) : Prog DeleteResult := do
  let keyPrefix := if hasSlash objectKey.key then rsplitHead objectKey.key else ""
  let dependentDeltas ← collectDependents objectKey (← Storage.list objectKey.bucket keyPrefix)
  let result := if dependentDeltas ≠ [] then
      { result with warnings := result.warnings ++
          ["Reference has " ++ toString dependentDeltas.length ++ " dependent delta(s). " ++
            "Deleting this will make those deltas unrecoverable."] }
    else result
  Storage.delete objectKey
  let result := { result with deleted := true, type := "reference",
                              dependentDeltas := dependentDeltas.length }
  if hasSlash objectKey.key then
    tryCatch (CachePort.evict objectKey.bucket (rsplitHead objectKey.key)) fun _ => pure ()
  pure result

def deleteDelta (objectKey : ObjectKey) (objHead : ObjectHead) (result : DeleteResult) :
    Prog DeleteResult := do
  Storage.delete objectKey
  let result := { result with deleted := true, type := "delta",
                              originalName := (lookup objHead.metadata "original_name").getD "unknown" }
  if !hasSlash objectKey.key then return result
  let deltaspacePrefix := parentKey objectKey.key
  let refKey := deltaspacePrefix ++ "/reference.bin"
  let objs ← Storage.list objectKey.bucket deltaspacePrefix
  let remainingDeltas :=
    (objs.filter fun obj => endswith obj.key ".delta" && obj.key != objectKey.key).map (·.key)
  if remainingDeltas.isEmpty then
    if (← Storage.head ⟨objectKey.bucket, refKey⟩).isSome then
      Storage.delete ⟨objectKey.bucket, refKey⟩
      tryCatch (CachePort.evict objectKey.bucket deltaspacePrefix) fun _ => pure ()
      return { result with cleanedReference := some refKey }
  return result

def delete (objectKey : ObjectKey) : Prog DeleteResult := do
  let some objHead ← Storage.head objectKey
    | throw (.notFound ("Object not found: " ++ objectKey.key))
  let result : DeleteResult := { key := objectKey.key, bucket := objectKey.bucket }
  if endswith objectKey.key "/reference.bin" then
    deleteReference objectKey result
  else if endswith objectKey.key ".delta" then
    deleteDelta objectKey objHead result
  else if lookup objHead.metadata "compression" = some "none" then
    Storage.delete objectKey
    pure { result with deleted := true, type := "direct",
                       originalName := (lookup objHead.metadata "original_name").getD objectKey.key }
  else
    Storage.delete objectKey
    pure { result with deleted := true, type := "unknown" }

/-- The five collections `_classify_objects_for_deletion` returns; the set of affected
deltaspaces is kept in insertion order. -/
structure Classified where
  references : List String := []
  deltas : List String := []
  directUploads : List String := []
  otherObjects : List String := []
  affectedDeltaspaces : List String := []
  deriving DecidableEq, Repr

def addAffected (acc : Classified) (ds : String) : Classified :=
  if ds ∈ acc.affectedDeltaspaces then acc
  else { acc with affectedDeltaspaces := acc.affectedDeltaspaces ++ [ds] }

def classifyLoop (bucket keyPrefix : String) : List ObjectHead → Classified → Prog Classified
  | [], acc => pure acc
  | obj :: rest, acc => do
    if keyPrefix ≠ "" ∧ startswith obj.key keyPrefix = false then
      classifyLoop bucket keyPrefix rest acc
    else if endswith obj.key "/reference.bin" then
      classifyLoop bucket keyPrefix rest { acc with references := acc.references ++ [obj.key] }
    else if endswith obj.key ".delta" then
      let acc := { acc with deltas := acc.deltas ++ [obj.key] }
      classifyLoop bucket keyPrefix rest
        (if hasSlash obj.key then addAffected acc (parentKey obj.key) else acc)
    else
      let objHead ← Storage.head ⟨bucket, obj.key⟩
      if (objHead.bind fun h => lookup h.metadata "compression") = some "none" then
        classifyLoop bucket keyPrefix rest
          { acc with directUploads := acc.directUploads ++ [obj.key] }
      else
        classifyLoop bucket keyPrefix rest
          { acc with otherObjects := acc.otherObjects ++ [obj.key] }

def classifyObjectsForDeletion (bucket keyPrefix : String) : Prog Classified := do
  classifyLoop bucket keyPrefix (← Storage.list bucket keyPrefix) {}

def addParentReferences (bucket : String) : List String → List String → Prog (List String)
  | [], refs => pure refs
  | ds :: rest, refs => do
    let refKey := ds ++ "/reference.bin"
    if refKey ∉ refs then
      let refHead ← Storage.head ⟨bucket, refKey⟩
      addParentReferences bucket rest (if refHead.isSome then refs ++ [refKey] else refs)
    else addParentReferences bucket rest refs

def deleteEach (bucket : String) : List String → RecursiveDeleteResult →
    Prog RecursiveDeleteResult
  | [], result => pure result
  | key :: rest, result => do
    let result ← tryCatch
      (do Storage.delete ⟨bucket, key⟩; pure { result with deletedCount := result.deletedCount + 1 })
      fun e => pure { result with failedCount := result.failedCount + 1,
                                  errors := result.errors ++
                                    ["Failed to delete " ++ key ++ ": " ++ e.message] }
    deleteEach bucket rest result

/-- `has_remaining_files` for one reference: an object of its deltaspace listing, other than
the reference, that lies outside the deletion prefix (for an empty prefix, any object). -/
def hasRemainingFiles (bucket keyPrefix refKey : String) (objs : List ObjectHead) : Bool :=
  let deletionPrefixFull := if keyPrefix ≠ "" then bucket ++ "/" ++ keyPrefix else bucket
  objs.any fun obj =>
    !(keyPrefix ≠ "" && startswith (bucket ++ "/" ++ obj.key) deletionPrefixFull) &&
      obj.key != refKey

def refKeyPrefix (refKey : String) : String :=
  if endswith refKey "/reference.bin" then dropRight refKey 14 else ""

def deleteReferencesIfSafe (bucket keyPrefix : String) : List String → Nat →
    RecursiveDeleteResult → Prog (Nat × RecursiveDeleteResult)
  | [], kept, result => pure (kept, result)
  | refKey :: rest, kept, result => do
    let (kept, result) ← tryCatch
      (do
        let objs ← Storage.list bucket (refKeyPrefix refKey)
        if !hasRemainingFiles bucket keyPrefix refKey objs then
          Storage.delete ⟨bucket, refKey⟩
          pure (kept, { result with deletedCount := result.deletedCount + 1 })
        else
          pure (kept + 1, { result with warnings := result.warnings ++
            ["Kept reference " ++ refKey ++ " (still in use)"] }))
      fun e => pure (kept, { result with failedCount := result.failedCount + 1,
                                         errors := result.errors ++
                                           ["Failed to delete reference " ++ refKey ++ ": " ++
                                             e.message] })
    deleteReferencesIfSafe bucket keyPrefix rest kept result

def normalizePrefix (keyPrefix : String) : String :=
  if keyPrefix ≠ "" ∧ endswith keyPrefix "/" = false then keyPrefix ++ "/" else keyPrefix

def deleteRecursive (bucket keyPrefix : String) : Prog RecursiveDeleteResult := do
  let keyPrefix := normalizePrefix keyPrefix
  let c ← classifyObjectsForDeletion bucket keyPrefix
  let references ← addParentReferences bucket c.affectedDeltaspaces c.references
  let result : RecursiveDeleteResult :=
    { bucket, keyPrefix, deltasDeleted := c.deltas.length, referencesDeleted := references.length,
      directDeleted := c.directUploads.length, otherDeleted := c.otherObjects.length }
  let result ← deleteEach bucket (c.otherObjects ++ c.directUploads ++ c.deltas) result
  let (referencesKept, result) ← deleteReferencesIfSafe bucket keyPrefix references 0 result
  let result := { result with referencesDeleted := result.referencesDeleted - referencesKept }
  if references ≠ [] then
    tryCatch (CachePort.evict bucket (if keyPrefix ≠ "" then rstripSlash keyPrefix else ""))
      fun _ => pure ()
  pure result

section Spec

variable {E : Engine}

theorem writes_collectDependents {P : ObjectKey → Option StoredObject → Prop} (k : ObjectKey) :
    ∀ objs, Writes P (collectDependents k objs)
  | [] => .pure _
  | _ :: rest => by
    rw [collectDependents]
    repeat' first
      | exact .pure _
      | exact .perform_none rfl
      | exact writes_collectDependents k rest
      | refine .bind ?_ fun _ => ?_
      | split

theorem writes_deleteReference (k : ObjectKey) (result : DeleteResult) :
    Writes (fun key v => v = none ∧ key = k) (deleteReference k result) := by
  unfold deleteReference
  repeat' first
    | exact .pure _
    | exact .perform_none rfl
    | exact .storageDelete ⟨rfl, rfl⟩
    | exact writes_collectDependents _ _
    | refine .bind ?_ fun _ => ?_
    | refine .tryCatch ?_ fun _ => ?_
    | split

theorem writes_delete_own (k : ObjectKey) :
    Writes (fun key v => v = none ∧ (key = k ∨ IsReferenceKey key.key)) (delete k) := by
  unfold delete deleteDelta
  repeat' first
    | exact .pure _
    | exact .throw _
    | exact .perform_none rfl
    | exact .storageDelete ⟨rfl, .inl rfl⟩
    | exact .storageDelete ⟨rfl, .inr (.inr (endswith_append _ _))⟩
    | exact (writes_deleteReference _ _).mono fun _ _ h => ⟨h.1, .inl h.2⟩
    | refine .bind ?_ fun _ => ?_
    | refine .tryCatch ?_ fun _ => ?_
    | split
    | dsimp only

theorem writes_delete (k : ObjectKey) : Writes (fun _ v => v = none) (delete k) :=
  (writes_delete_own k).mono fun _ _ h => h.1

theorem exec_storageDelete_bind_lookup {β : Type} {k : ObjectKey} {f : Unit → Prog β}
    (hf : ∀ u, Writes (fun _ v => v = none) (f u)) {b : β} {w w' : World}
    (hx : Exec E (Storage.delete k >>= f) w (.ok b) w') : w'.store.lookup k = none := by
  rcases Exec.perform_bind_inv hx with ⟨u, -, hx⟩ | ⟨e, he, -⟩
  · rcases (hf u).lookup hx k with e | e
    · rw [e]; simp [Call.interp]
    · exact e
  · cases he

theorem exec_delete_ok_lookup {k : ObjectKey} (hk : ¬IsReferenceKey k.key) {r : DeleteResult}
    {w w' : World} (hx : Exec E (delete k) w (.ok r) w') : w'.store.lookup k = none := by
  unfold delete at hx
  rcases Exec.perform_bind_inv hx with ⟨_ | objHead, -, hx⟩ | ⟨e, he, -⟩
  · cases hx
  · dsimp only at hx
    split at hx
    · exact absurd (.inr ‹_›) hk
    split at hx
    · unfold deleteDelta at hx
      refine exec_storageDelete_bind_lookup (fun _ => ?_) hx
      repeat' first
        | exact .pure _
        | exact .perform_none rfl
        | exact .storageDelete rfl
        | refine .bind ?_ fun _ => ?_
        | refine .tryCatch ?_ fun _ => ?_
        | split
        | dsimp only
    · split at hx <;> exact exec_storageDelete_bind_lookup (fun _ => .pure _) hx
  · cases he

def DeletesUnder (b np : String) (key : ObjectKey) (v : Option StoredObject) : Prop :=
  v = none ∧ key.bucket = b ∧ startswith key.key np = true

theorem normalizePrefix_slash (p : String) :
    normalizePrefix p = "" ∨ endswith (normalizePrefix p) "/" = true := by
  unfold normalizePrefix
  split_ifs with h
  · exact .inr (endswith_append _ _)
  · exact or_iff_not_imp_left.2 (by simpa using h)

theorem startswith_of_not_skip {k np : String} (h : ¬(np ≠ "" ∧ startswith k np = false)) :
    startswith k np = true := by
  by_cases hn : np = ""
  · subst hn; exact startswith_iff.2 List.nil_prefix
  · simpa [hn] using h

def Classified.removed (c : Classified) : List String := c.otherObjects ++ c.directUploads ++ c.deltas

def Classified.Under (np : String) (c : Classified) : Prop :=
  ∀ k ∈ c.references ++ c.removed ++ c.affectedDeltaspaces.map (· ++ "/reference.bin"),
    startswith k np = true

theorem addAffected_eq (acc : Classified) (ds : String) :
    addAffected acc ds = { acc with affectedDeltaspaces := if ds ∈ acc.affectedDeltaspaces
      then acc.affectedDeltaspaces else acc.affectedDeltaspaces ++ [ds] } := by
  unfold addAffected; split <;> rfl

theorem Classified.Under.addAffected {np ds : String} {acc : Classified} (h : acc.Under np)
    (hd : startswith (ds ++ "/reference.bin") np = true) : (addAffected acc ds).Under np := by
  rw [addAffected_eq]
  split
  · exact h
  · intro x hx
    rw [List.map_append, List.map_singleton, ← List.append_assoc, List.mem_append,
      List.mem_singleton] at hx
    rcases hx with hx | rfl
    exacts [h x hx, hd]

theorem Classified.Under.grow {np k : String} {acc acc' : Classified} (h : acc.Under np)
    (hk : startswith k np = true) (hr : ∀ x ∈ acc'.references, x ∈ acc.references ∨ x = k)
    (hd : ∀ x ∈ acc'.removed, x ∈ acc.removed ∨ x = k)
    (ha : acc'.affectedDeltaspaces = acc.affectedDeltaspaces) : acc'.Under np := by
  intro x hx
  rw [ha, List.mem_append, List.mem_append] at hx
  rcases hx with (hx | hx) | hx
  · exact (hr x hx).elim (fun hx => h x (List.mem_append_left _ (List.mem_append_left _ hx)))
      (· ▸ hk)
  · exact (hd x hx).elim (fun hx => h x (List.mem_append_left _ (List.mem_append_right _ hx)))
      (· ▸ hk)
  · exact h x (List.mem_append_right _ hx)

theorem Classified.removed_addAffected (acc : Classified) (ds : String) :
    (addAffected acc ds).removed = acc.removed := by
  rw [addAffected_eq]; rfl

theorem Classified.mem_removed_deltas {acc : Classified} {x k : String} :
    x ∈ ({ acc with deltas := acc.deltas ++ [k] } : Classified).removed ↔ x ∈ acc.removed ∨ x = k := by
  simp only [Classified.removed, List.mem_append, List.mem_singleton, or_assoc]

theorem Classified.mem_removed_directUploads {acc : Classified} {x k : String} :
    x ∈ ({ acc with directUploads := acc.directUploads ++ [k] } : Classified).removed ↔
      x ∈ acc.removed ∨ x = k := by
  simp only [Classified.removed, List.mem_append, List.mem_singleton, or_assoc, or_comm, or_left_comm]

theorem Classified.mem_removed_otherObjects {acc : Classified} {x k : String} :
    x ∈ ({ acc with otherObjects := acc.otherObjects ++ [k] } : Classified).removed ↔
      x ∈ acc.removed ∨ x = k := by
  simp only [Classified.removed, List.mem_append, List.mem_singleton, or_assoc, or_comm, or_left_comm]

/-- What the classification loop returns from `acc` over `objs`: it stays under `np` when `acc`
does, keeps what `acc` sends to phase 2, and sends there every listed key under `np` that is
not a reference. -/
def ClassifyPost (np : String) (objs : List ObjectHead) (acc c : Classified) : Prop :=
  (acc.Under np → c.Under np) ∧ (∀ k ∈ acc.removed, k ∈ c.removed) ∧
    ∀ obj ∈ objs, startswith obj.key np = true → endswith obj.key "/reference.bin" = false →
      obj.key ∈ c.removed

theorem ClassifyPost.cons {np : String} {obj : ObjectHead} {rest : List ObjectHead}
    {acc acc' c : Classified} (h : ClassifyPost np rest acc' c)
    (hu : acc.Under np → acc'.Under np) (hr : ∀ k ∈ acc.removed, k ∈ acc'.removed)
    (ho : startswith obj.key np = true → endswith obj.key "/reference.bin" = false →
      obj.key ∈ acc'.removed) :
    ClassifyPost np (obj :: rest) acc c :=
  ⟨h.1 ∘ hu, fun k hk => h.2.1 k (hr k hk), by
    rintro o (_ | ⟨_, ho'⟩) hs he
    exacts [h.2.1 _ (ho hs he), h.2.2 o ho' hs he]⟩

theorem ClassifyPost.cons_removed {np : String} {obj : ObjectHead} {rest : List ObjectHead}
    {acc acc' c : Classified} (h : ClassifyPost np rest acc' c) (hs : startswith obj.key np = true)
    (hrem : ∀ x, x ∈ acc'.removed ↔ x ∈ acc.removed ∨ x = obj.key)
    (hrefs : acc'.references = acc.references)
    (ha : acc'.affectedDeltaspaces = acc.affectedDeltaspaces) :
    ClassifyPost np (obj :: rest) acc c :=
  h.cons (fun hu => hu.grow hs (fun _ hx => .inl (hrefs ▸ hx)) (fun x hx => (hrem x).1 hx) ha)
    (fun k hk => (hrem k).2 (.inl hk)) fun _ _ => (hrem _).2 (.inr rfl)

theorem returns_classifyLoop (b np : String) (hp : np = "" ∨ endswith np "/" = true) :
    ∀ objs acc, Returns (ClassifyPost np objs acc) (classifyLoop b np objs acc)
  | [], _ => .pure ⟨id, fun _ h => h, fun _ h => absurd h (List.not_mem_nil _)⟩
  | obj :: rest, acc => by
    have ih := returns_classifyLoop b np hp rest
    rw [classifyLoop]
    split_ifs with h1 h2 h3 hsl
    · -- outside the prefix: skipped
      exact (ih acc).mono fun c hc => hc.cons id (fun _ h => h) fun hs => absurd hs (by simp [h1.2])
    all_goals have hs := startswith_of_not_skip h1
    · -- a reference: left to phase 3
      refine (ih _).mono fun c hc => hc.cons (fun hu => hu.grow hs (fun x hx =>
        (List.mem_append.1 hx).imp_right List.mem_singleton.1) (fun x hx => .inl hx) rfl)
        (fun _ h => h) fun _ he => ?_
      simp [h2] at he
    · -- a delta: deleted in phase 2, its deltaspace's reference considered in phase 3
      refine (ih _).mono fun c hc => hc.cons (fun hu => .addAffected (hu.grow hs (fun x hx => .inl hx)
        (fun x hx => Classified.mem_removed_deltas.1 hx) rfl) (startswith_parent_reference hp hsl hs))
        (fun k hk => ?_) fun _ _ => ?_
      all_goals rw [Classified.removed_addAffected]
      exacts [Classified.mem_removed_deltas.2 (.inl hk), Classified.mem_removed_deltas.2 (.inr rfl)]
    · -- a delta without a deltaspace
      exact (ih _).mono fun c hc =>
        hc.cons_removed hs (fun _ => Classified.mem_removed_deltas) rfl rfl
    · -- anything else: a head tells a direct upload from another object
      refine .bind (.trivial _) fun _ _ => ?_
      split
      · exact (ih _).mono fun c hc =>
          hc.cons_removed hs (fun _ => Classified.mem_removed_directUploads) rfl rfl
      · exact (ih _).mono fun c hc =>
          hc.cons_removed hs (fun _ => Classified.mem_removed_otherObjects) rfl rfl

theorem returns_classifyObjectsForDeletion (b np : String) (hp : np = "" ∨ endswith np "/" = true) :
    Returns (·.Under np) (classifyObjectsForDeletion b np) :=
  .bind (.trivial _) fun objs _ =>
    (returns_classifyLoop b np hp objs {}).mono fun _ hc =>
      hc.1 fun _ h => by simp [Classified.removed] at h

theorem returns_classifyLoop_removed (b np : String) :
    ∀ objs acc, (∀ k ∈ acc.removed, endswith k "/reference.bin" = false) →
      Returns (fun c => ∀ k ∈ c.removed, endswith k "/reference.bin" = false)
        (classifyLoop b np objs acc)
  | [], _, h => .pure h
  | obj :: rest, acc, h => by
    have ih := returns_classifyLoop_removed b np rest
    rw [classifyLoop]
    split_ifs with h1 h2 h3 hsl
    · exact ih acc h
    · exact ih _ h
    · refine ih _ fun k hk => ?_
      rw [Classified.removed_addAffected, Classified.mem_removed_deltas] at hk
      exact hk.elim (h k) fun hk => hk ▸ endswith_delta_reference h3
    · refine ih _ fun k hk => ?_
      rw [Classified.mem_removed_deltas] at hk
      exact hk.elim (h k) fun hk => hk ▸ endswith_delta_reference h3
    · have he : endswith obj.key "/reference.bin" = false := Bool.eq_false_iff.2 h2
      refine .bind (.trivial _) fun _ _ => ?_
      split
      · exact ih _ fun k hk => (Classified.mem_removed_directUploads.1 hk).elim (h k) (· ▸ he)
      · exact ih _ fun k hk => (Classified.mem_removed_otherObjects.1 hk).elim (h k) (· ▸ he)

theorem hasRemainingFiles_of_mem {b np refKey : String} {objs : List ObjectHead} {obj : ObjectHead}
    (ho : obj ∈ objs) (hout : startswith obj.key np = false) (hne : obj.key ≠ refKey) :
    hasRemainingFiles b np refKey objs = true := by
  refine List.any_eq_true.2 ⟨obj, ho, ?_⟩
  by_cases hn : np = "" <;> simp [hn, startswith_append_cancel, hout, hne]

theorem refKeyPrefix_append (D : String) : refKeyPrefix (D ++ "/reference.bin") = D := by
  rw [refKeyPrefix, if_pos (endswith_append _ _)]
  exact String.ext (by simp [dropRight])

theorem writes_classifyLoop {P : ObjectKey → Option StoredObject → Prop} (b np : String) :
    ∀ objs acc, Writes P (classifyLoop b np objs acc)
  | [], _ => .pure _
  | _ :: rest, _ => by
    rw [classifyLoop]
    repeat' first
      | exact writes_classifyLoop b np rest _
      | exact .perform_none rfl
      | refine .bind ?_ fun _ => ?_
      | split

theorem writes_addParentReferences {P : ObjectKey → Option StoredObject → Prop} (b : String) :
    ∀ dss refs, Writes P (addParentReferences b dss refs)
  | [], _ => .pure _
  | _ :: rest, _ => by
    rw [addParentReferences]
    repeat' first
      | exact writes_addParentReferences b rest _
      | exact .perform_none rfl
      | refine .bind ?_ fun _ => ?_
      | split

theorem writes_classifyObjectsForDeletion {P : ObjectKey → Option StoredObject → Prop}
    (b np : String) : Writes P (classifyObjectsForDeletion b np) :=
  .bind (.perform_none rfl) fun _ => writes_classifyLoop b np _ _

theorem returns_addParentReferences (b np : String) :
    ∀ dss refs, (∀ ds ∈ dss, startswith (ds ++ "/reference.bin") np = true) →
      (∀ r ∈ refs, startswith r np = true) →
      Returns (fun refs' => ∀ r ∈ refs', startswith r np = true) (addParentReferences b dss refs)
  | [], _, _, hr => .pure hr
  | ds :: rest, refs, hd, hr => by
    have ih := returns_addParentReferences b np rest
    have hd' : ∀ ds ∈ rest, startswith (ds ++ "/reference.bin") np = true :=
      fun d h => hd d (.tail _ h)
    rw [addParentReferences]
    split
    · refine .bind (.trivial _) fun _ _ => ih _ hd' ?_
      split
      · exact fun r h => (List.mem_append.1 h).elim (hr r) fun h =>
          List.mem_singleton.1 h ▸ hd ds (.head _)
      · exact hr
    · exact ih _ hd' hr

theorem writes_deleteEach {P : ObjectKey → Option StoredObject → Prop} (b : String) :
    ∀ keys, (∀ k ∈ keys, P ⟨b, k⟩ none) → ∀ result, Writes P (deleteEach b keys result)
  | [], _, _ => .pure _
  | k :: rest, h, _ => by
    rw [deleteEach]
    exact .bind (.tryCatch (.bind (.storageDelete (h k (.head _))) fun _ => .pure _) fun _ => .pure _)
      fun _ => writes_deleteEach b rest (fun k' hk => h k' (.tail _ hk)) _

theorem writes_deleteReferencesIfSafe {P : ObjectKey → Option StoredObject → Prop} (b np : String) :
    ∀ refs, (∀ r ∈ refs, P ⟨b, r⟩ none) → ∀ kept result,
      Writes P (deleteReferencesIfSafe b np refs kept result)
  | [], _, _, _ => .pure _
  | r :: rest, h, _, _ => by
    rw [deleteReferencesIfSafe]
    refine .bind (.tryCatch (.bind (.perform_none rfl) fun _ => ?_) fun _ => .pure _) fun _ =>
      writes_deleteReferencesIfSafe b np rest (fun r' hr => h r' (.tail _ hr)) _ _
    split
    · exact .bind (.storageDelete (h r (.head _))) fun _ => .pure _
    · exact .pure _

/-- Every object `delete_recursive` touches, whichever store calls fail, is deleted, in the
bucket, under the normalized prefix. -/
theorem writes_deleteRecursive (b p : String) :
    Writes (DeletesUnder b (normalizePrefix p)) (deleteRecursive b p) := by
  have hp := normalizePrefix_slash p
  unfold deleteRecursive
  refine .bind_returns (writes_classifyObjectsForDeletion b _) (returns_classifyObjectsForDeletion b _ hp)
    fun c hc => ?_
  have hu : ∀ k ∈ c.references ++ c.removed, startswith k (normalizePrefix p) = true :=
    fun k hk => hc k (List.mem_append_left _ hk)
  refine .bind_returns (writes_addParentReferences b _ _)
    (returns_addParentReferences b _ _ _ (fun ds h => hc _ (List.mem_append_right _
      (List.mem_map_of_mem _ h))) fun r h => hu r (List.mem_append_left _ h)) fun refs hr => ?_
  refine .bind (writes_deleteEach b _ (fun k hk => ⟨rfl, rfl, hu k (List.mem_append_right _ hk)⟩) _)
    fun _ => .bind (writes_deleteReferencesIfSafe b _ refs (fun r h => ⟨rfl, rfl, hr r h⟩) _ _)
      fun _ => ?_
  repeat' first
    | exact .pure _
    | exact .perform_none rfl
    | refine .bind ?_ fun _ => ?_
    | refine .tryCatch ?_ fun _ => ?_
    | split

theorem run_deleteEach_lookup (b : String) :
    ∀ (keys : List String) result (w : World) k, k ∈ keys →
      (run E (deleteEach b keys result) w).2.store.lookup ⟨b, k⟩ = none
  | [], _, _, _, h => absurd h (List.not_mem_nil _)
  | k :: rest, result, w, k', h => by
    have e : run E (deleteEach b (k :: rest) result) w =
        run E (deleteEach b rest { result with deletedCount := result.deletedCount + 1 })
          { w with store := w.store.erase ⟨b, k⟩ } := by
      simp [deleteEach, run_bind, run_tryCatch]
    rw [e]
    rcases List.mem_cons.1 h with rfl | h
    · have hw : ∀ r, Writes (fun _ v => v = none) (deleteEach b rest r) :=
        writes_deleteEach b rest fun _ _ => rfl
      rcases (hw _).run_lookup Prod.mk.eta.symm _ with h' | h'
      · exact h'.trans (AList.lookup_erase _ _)
      · exact h'
    · exact run_deleteEach_lookup b rest _ _ k' h

/-- Without failures, `delete_recursive` removes every object under the normalized prefix that
is not a `…/reference.bin`. -/
theorem run_deleteRecursive_removes {b p : String} {w w' : World} {s : RecursiveDeleteResult}
    (h : run E (deleteRecursive b p) w = (.ok s, w')) {k : String} {o : StoredObject}
    (hk : w.store.lookup ⟨b, k⟩ = some o) (hs : startswith k (normalizePrefix p) = true)
    (he : endswith k "/reference.bin" = false) : w'.store.lookup ⟨b, k⟩ = none := by
  unfold deleteRecursive at h
  obtain ⟨c, w1, h1, h⟩ := run_bind_eq_ok.1 h
  obtain ⟨refs, w2, -, h⟩ := run_bind_eq_ok.1 h
  obtain ⟨r3, w3, h3, h⟩ := run_bind_eq_ok.1 h
  have hc : k ∈ c.removed := by
    simp only [classifyObjectsForDeletion, run_bind, run_storageList] at h1
    exact ((returns_classifyLoop b _ (normalizePrefix_slash p) _ {}).run_ok h1).2.2 _
      (mem_listObjects hk hs) hs he
  have h3' : w3.store.lookup ⟨b, k⟩ = none := by
    rw [show w3 = _ from (congrArg Prod.snd h3).symm]; exact run_deleteEach_lookup b _ _ w2 k hc
  -- phase 3 and the cache eviction only delete
  rcases (show Writes (fun _ v => v = none) _ by
      refine .bind (writes_deleteReferencesIfSafe b _ refs (fun _ _ => rfl) _ _) fun _ => ?_
      repeat' first
        | exact .pure _
        | exact .perform_none rfl
        | refine .bind ?_ fun _ => ?_
        | refine .tryCatch ?_ fun _ => ?_
        | split).run_lookup h ⟨b, k⟩ with h4 | h4
  · exact h4.trans h3'
  · exact h4

/-- Without failures `delete_recursive` returns normally: every call it makes either cannot raise
or sits inside a `try` whose handler returns. -/
theorem noThrow_deleteRecursive (b p : String) : NoThrow E (deleteRecursive b p) := by
  have hl : ∀ np objs acc, NoThrow E (classifyLoop b np objs acc) := fun np objs => by
    induction objs with
    | nil => exact fun _ => .pure _
    | cons obj rest ih =>
      intro acc; rw [classifyLoop]
      repeat' first
        | exact ih _
        | exact .perform fun _ => ⟨_, rfl⟩
        | refine .bind ?_ fun _ => ?_
        | split
  have ha : ∀ ds refs, NoThrow E (addParentReferences b ds refs) := fun ds => by
    induction ds with
    | nil => exact fun _ => .pure _
    | cons d rest ih =>
      intro refs; rw [addParentReferences]
      repeat' first
        | exact ih _
        | exact .perform fun _ => ⟨_, rfl⟩
        | refine .bind ?_ fun _ => ?_
        | split
  have he : ∀ keys r, NoThrow E (deleteEach b keys r) := fun keys => by
    induction keys with
    | nil => exact fun _ => .pure _
    | cons k rest ih => exact fun _ => .bind (.tryCatch fun _ => .pure _) fun _ => ih _
  have hr : ∀ np refs kept r, NoThrow E (deleteReferencesIfSafe b np refs kept r) := fun np refs => by
    induction refs with
    | nil => exact fun _ _ => .pure _
    | cons k rest ih => exact fun _ _ => .bind (.tryCatch fun _ => .pure _) fun _ => ih _ _
  unfold deleteRecursive classifyObjectsForDeletion
  repeat' first
    | exact .pure _
    | exact hl _ _ _
    | exact ha _ _
    | exact he _ _
    | exact hr _ _ _ _
    | exact .perform fun _ => ⟨_, rfl⟩
    | refine .bind ?_ fun _ => ?_
    | refine .tryCatch fun _ => ?_
    | split

end Spec

end DeltaService

end DeltaGlider
