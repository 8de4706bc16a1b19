import DeltaGlider.Properties.Races
import DeltaGlider.Properties.GoodStore

/-! # A `put` racing the delete of a deltaspace's last delta

No lock spans the delete's listing and its deletion of `reference.bin`: the store stays good
exactly when the reference survives. -/

namespace DeltaGlider

namespace DeltaService

variable (svc : DeltaService) {E : Engine}

/-- What `delete` of `k`'s delta in `ds` may write: the deletion of that delta or of the
deltaspace's reference. -/
def DeleteWrite (ds : DeltaSpace) (k : String) (key : ObjectKey) (v : Option StoredObject) : Prop :=
  v = none ∧ (key = ⟨ds.bucket, ds.deltaKey k⟩ ∨ key = ⟨ds.bucket, ds.referenceKey⟩)

section Guarantee

variable {ds : DeltaSpace} {k : String} (hk : '/' ∉ k.data)
include hk

theorem writes_deleteDelta (hd : ObjectHead) (result : DeleteResult) :
    Writes (DeleteWrite ds k) (deleteDelta ⟨ds.bucket, ds.deltaKey k⟩ hd result) := by
  unfold deleteDelta
  repeat' first
    | exact .pure _
    | exact .perform_none rfl
    | exact .storageDelete ⟨rfl, .inl rfl⟩
    | refine .bind ?_ fun _ => ?_
    | refine .tryCatch ?_ fun _ => ?_
    | split
    | dsimp only
  rename_i hs _ _ _ _ _
  refine .storageDelete ⟨rfl, .inr ?_⟩
  rw [ds.parentKey_deltaKey hk (by simpa using hs)]

theorem writes_delete_deltaKey : Writes (DeleteWrite ds k) (delete ⟨ds.bucket, ds.deltaKey k⟩) := by
  unfold delete
  repeat' first
    | exact .pure _
    | exact .throw _
    | exact .perform_none rfl
    | exact .storageDelete ⟨rfl, .inl rfl⟩
    | exact (writes_deleteReference _ _).mono fun _ _ h => ⟨h.1, .inl h.2⟩
    | exact writes_deleteDelta hk _ _
    | refine .bind ?_ fun _ => ?_
    | refine .tryCatch ?_ fun _ => ?_
    | split

end Guarantee

section Race

variable {f : LocalFile} {ds : DeltaSpace} {n k : String} {size : Nat} {me : Bool} {w : World}
  {l : Log}

def RefWith (E : Engine) (X : String) (v : Option StoredObject) : Prop :=
  ∀ R, v = some R → resolveMetadata R.metadata "file_sha256" = some X ∧ E.sha256 R.data = X ∧
    resolveMetadata R.metadata "ref_key" = none

def SoundRef (E : Engine) (v : Option StoredObject) : Prop :=
  ∀ R, v = some R → resolveMetadata R.metadata "ref_key" = none ∧
    ∀ X, resolveMetadata R.metadata "file_sha256" = some X → E.sha256 R.data = X

def BoundTo (ds : DeltaSpace) (X : String) (v : Option StoredObject) : Prop :=
  ∃ o, v = some o ∧ resolveMetadata o.metadata "ref_key" = some ds.referenceKey ∧
    resolveMetadata o.metadata "ref_sha256" = some X

/-- `n`'s delta records the deltaspace's reference with some SHA, which the reference, if it is
there, records and has. -/
def BoundDelta (E : Engine) (ds : DeltaSpace) (n : String) (s : Store) : Prop :=
  ∃ X, BoundTo ds X (s.lookup ⟨ds.bucket, ds.deltaKey n⟩) ∧
    RefWith E X (s.lookup ⟨ds.bucket, ds.referenceKey⟩)

theorem StoreWF.soundRef {s : Store} (hwf : StoreWF s) (hsd : Sound E s) (ds : DeltaSpace) :
    SoundRef E (s.lookup ⟨ds.bucket, ds.referenceKey⟩) := fun R hR =>
  have hrk : resolveMetadata R.metadata "ref_key" = none := by
    rcases hrk : resolveMetadata R.metadata "ref_key" with _ | rk
    · rfl
    · obtain ⟨ds', m, he, -⟩ := hwf _ R hR rk hrk
      have e : ds.referenceKey = ds'.deltaKey m := congrArg ObjectKey.key he
      exact absurd (e ▸ ds.isReferenceKey_referenceKey) (ds'.not_isReferenceKey_deltaKey m)
  ⟨hrk, fun X hX => hsd _ R X hR hrk hX⟩

theorem stable_deleteWrite {K : ObjectKey} {R : Option StoredObject → Prop} (h : R none) :
    Stable (DeleteWrite ds k) fun s => R (s.lookup K) :=
  stable_lookup fun _ _ hq _ => hq.1 ▸ h

theorem deleteWrite_ne_delta {key : ObjectKey} {v : Option StoredObject}
    (hq : DeleteWrite ds k key v) (hne : n ≠ k) : key ≠ ⟨ds.bucket, ds.deltaKey n⟩ := by
  rintro rfl
  rcases hq.2 with e | e
  · exact hne (ds.deltaKey_inj.1 (congrArg ObjectKey.key e))
  · exact ds.reference_ne_delta n e.symm

theorem stable_boundTo (hne : n ≠ k) (X : String) :
    Stable (DeleteWrite ds k) fun s => BoundTo ds X (s.lookup ⟨ds.bucket, ds.deltaKey n⟩) :=
  stable_lookup fun _ _ hq hk => absurd hk (deleteWrite_ne_delta hq hne)

theorem wpR_createReference_delete (hne : n ≠ k) :
    wpR E (DeleteWrite ds k) me (svc.createReference f ds (E.sha256 f.data) n size)
      (OnOk fun _ s _ => BoundDelta E ds n s) w l := by
  have hT : Stable (DeleteWrite ds k) fun _ => True := fun _ _ _ _ _ => trivial
  have hR : Stable (DeleteWrite ds k) fun s =>
      RefWith E (E.sha256 f.data) (s.lookup ⟨ds.bucket, ds.referenceKey⟩) := stable_deleteWrite nofun
  have hR' : Stable (DeleteWrite ds k) fun s =>
      RefWith E (E.sha256 f.data) (s.lookup ⟨ds.bucket, ds.referenceKey⟩) ∧
        BoundTo ds (E.sha256 f.data) (s.lookup ⟨ds.bucket, ds.deltaKey n⟩) :=
    hR.and (stable_boundTo hne _)
  unfold createReference
  refine wpR_read rfl hT trivial (fun _ _ t _ _ => ?_) fun _ _ _ => trivial
  refine wpR_call hT trivial (fun _ _ _ _ _ => ?_) fun _ _ _ => trivial
  refine wpR_read rfl hR (fun R hR => ?_) (fun w₂ l₂ hd h₂ hhd => ?_) fun _ _ _ => trivial
  · obtain rfl := Option.some_inj.1 ((AList.lookup_insert _).symm.trans hR)
    exact ⟨by simp, rfl, by simp⟩
  simp only [Call.interp, Except.ok.injEq] at hhd h₂
  subst hhd
  dsimp only
  -- the re-head reads this client's reference or nothing, so the bound SHA is this client's
  generalize hb : boundRefSha _ (E.sha256 f.data) = b
  obtain rfl : b = E.sha256 f.data := by
    rcases hK : w₂.store.lookup ⟨ds.bucket, ds.referenceKey⟩ with _ | R <;>
      simp only [hK, Option.map_none', Option.map_some', Option.none_bind, Option.some_bind,
        StoredObject.head_metadata] at hb
    · exact hb.symm
    · rw [(h₂ R hK).1, boundRefSha_self] at hb; exact hb.symm
  refine wpR_read rfl hR h₂ (fun w₃ l₃ _ h₃ _ => ?_) fun _ _ _ => trivial
  refine wpR_bind_onOk (wpR_withTemp hR hR' h₃ fun w₄ l₄ _ h₄ => ?_)
    fun _ w₅ l₅ h₅ => wpR_pure hR' h₅ fun _ _ h => ⟨_, h.2, h.1⟩
  refine wpR_read rfl hR h₄ (fun w₅ l₅ _ h₅ _ => ?_) fun _ _ _ => trivial
  refine wpR_read rfl hR h₅ (fun w₆ l₆ _ h₆ _ => ?_) fun _ _ _ => trivial
  refine wpR_perform_stable hR hR' h₆ fun w₇ h₇ =>
    ⟨fun R hR => h₇ R ((AList.lookup_insert_ne (ds.reference_ne_delta n)).symm.trans hR), _,
      AList.lookup_insert _, by simp, by simp⟩

theorem wpR_createDelta_delete (hne : n ≠ k) {hd : ObjectHead}
    (h : ∀ X, resolveMetadata hd.metadata "file_sha256" = some X →
      RefWith E X (w.store.lookup ⟨ds.bucket, ds.referenceKey⟩)) :
    wpR E (DeleteWrite ds k) me (svc.createDelta f ds hd (E.sha256 f.data) n size)
      (OnOk fun _ s _ => BoundDelta E ds n s) w l := by
  unfold createDelta requireRefSha
  split
  · split
    · rename_i X hX _
      have hR : Stable (DeleteWrite ds k) fun s =>
          RefWith E X (s.lookup ⟨ds.bucket, ds.referenceKey⟩) := stable_deleteWrite nofun
      have hR' := hR.and (stable_boundTo hne X)
      refine wpR_pure_bind (wpR_bind_read (writes_ensureReference ds _) hR (h X hX)
        (fun _ w₁ l₁ h₁ => ?_) fun _ _ _ => trivial)
      refine wpR_read rfl hR h₁ (fun w₂ l₂ _ h₂ _ => ?_) fun _ _ _ => trivial
      refine wpR_mono (fun r _ _ h => ?_) (wpR_withTemp hR hR' h₂ fun w₃ l₃ _ h₃ => ?_)
      · cases r
        exacts [trivial, ⟨X, h.2, h.1⟩]
      refine wpR_tryCatch_read rfl hR h₃ fun w₄ l₄ _ h₄ _ => ?_
      split
      · exact fun _ _ _ => trivial
      refine wpR_read rfl hR h₄ (fun w₅ l₅ _ h₅ _ => ?_) fun _ _ _ => trivial
      refine wpR_call hR h₅ (fun w₆ l₆ _ h₆ _ => ?_) fun _ _ _ => trivial
      refine wpR_pure hR' ⟨fun R hR => h₆ R ((AList.lookup_insert_ne (ds.reference_ne_delta n)).symm.trans hR),
        _, AList.lookup_insert _, by simp, by simp⟩ fun _ _ h => h
    · exact fun _ _ _ => trivial
  · exact fun _ _ _ => trivial

theorem wpR_put_delete (hc : svc.shouldUseDelta f.name = true) (hne : f.name ≠ k)
    (h : SoundRef E (w.store.lookup ⟨ds.bucket, ds.referenceKey⟩)) :
    wpR E (DeleteWrite ds k) me (svc.put f ds none) (OnOk fun _ s _ => BoundDelta E ds f.name s)
      w l := by
  have hS : Stable (DeleteWrite ds k) fun s =>
      SoundRef E (s.lookup ⟨ds.bucket, ds.referenceKey⟩) := stable_deleteWrite nofun
  unfold put
  refine wpR_read rfl hS h (fun w₀ l₀ fs h₀ hfs => ?_) fun _ _ _ => trivial
  simp only [Call.interp, Except.ok.injEq] at hfs h₀
  subst hfs
  simp only [originalNameOf, hc, Bool.not_true]
  refine wpR_read rfl hS h₀ (fun w₁ l₁ hd h₁ hhd => ?_) fun _ _ _ => trivial
  simp only [Call.interp, Except.ok.injEq] at hhd h₁
  subst hhd
  rcases hK : w₁.store.lookup ⟨ds.bucket, ds.referenceKey⟩ with _ | R <;>
    simp only [Call.interp, hK, Option.map_none', Option.map_some']
  · exact wpR_createReference_delete svc hne
  · refine wpR_createDelta_delete svc hne fun X hX R' hR' => ?_
    obtain rfl := Option.some_inj.1 (hK.symm.trans hR')
    rw [StoredObject.head_metadata] at hX
    exact ⟨hX, (h₁ _ hK).2 X hX, (h₁ _ hK).1⟩

def AgreesOff (ds : DeltaSpace) (n : String) (t s : Store) : Prop :=
  ∀ key, key ≠ ⟨ds.bucket, ds.referenceKey⟩ → key ≠ ⟨ds.bucket, ds.deltaKey n⟩ →
    s.lookup key = t.lookup key

theorem stable_agreesOff_put {g : LocalFile} {t : Store} :
    Stable (PutWrite E g ds n) (AgreesOff ds n t) := by
  intro s key v hq h key' h₁ h₂
  have e : key' ≠ key := by rcases hq.2 with ⟨rfl, -⟩ | rfl <;> assumption
  rw [Store.lookup_set_ne _ _ e]
  exact h key' h₁ h₂

theorem AgreesOff.erase {t s : Store} (h : AgreesOff ds n t s) :
    AgreesOff ds n (t.erase ⟨ds.bucket, ds.deltaKey k⟩) (s.set ⟨ds.bucket, ds.deltaKey k⟩ none) := by
  intro key h₁ h₂
  by_cases e : key = ⟨ds.bucket, ds.deltaKey k⟩
  · subst e; rw [Store.lookup_set_self, AList.lookup_erase]
  · rw [Store.lookup_set_ne _ _ e, AList.lookup_erase_ne e]; exact h key h₁ h₂

theorem stable_agreesOff_delete {t : Store} :
    Stable (DeleteWrite ds k) (AgreesOff ds n (t.erase ⟨ds.bucket, ds.deltaKey k⟩)) := by
  rintro s key v ⟨rfl, hk⟩ h key' h₁ h₂
  by_cases e : key' = key
  · subst e
    rcases hk with rfl | rfl
    · rw [Store.lookup_set_self, AList.lookup_erase]
    · exact absurd rfl h₁
  · rw [Store.lookup_set_ne _ _ e]; exact h key' h₁ h₂

theorem wpR_deleteDelta_put (hk : '/' ∉ k.data) {g : LocalFile} {t : Store} (hd : ObjectHead)
    (result : DeleteResult) (h : AgreesOff ds n t w.store) :
    wpR E (PutWrite E g ds n) me (deleteDelta ⟨ds.bucket, ds.deltaKey k⟩ hd result)
      (OnOk fun _ s _ => AgreesOff ds n (t.erase ⟨ds.bucket, ds.deltaKey k⟩) s) w l := by
  have hW : Writes (DeleteWrite ds k) (deleteDelta ⟨ds.bucket, ds.deltaKey k⟩ hd result) :=
    writes_deleteDelta hk hd result
  unfold deleteDelta at hW ⊢
  refine wpR_call stable_agreesOff_put h (fun w₁ l₁ _ h₁ _ => ?_) fun _ _ _ => trivial
  refine wpR_mono (fun r _ _ h => ?_) (wpR_of_writes ?_ stable_agreesOff_put stable_agreesOff_delete
    (AgreesOff.erase h₁))
  · cases r
    exacts [trivial, h]
  · cases hW with | call _ hk' => exact hk' (.ok ())

theorem wpR_delete_put (hk : '/' ∉ k.data) {g : LocalFile} {t : Store}
    (h : AgreesOff ds n t w.store) :
    wpR E (PutWrite E g ds n) me (delete ⟨ds.bucket, ds.deltaKey k⟩)
      (OnOk fun _ s _ => AgreesOff ds n (t.erase ⟨ds.bucket, ds.deltaKey k⟩) s) w l := by
  have hr : endswith (ds.deltaKey k) "/reference.bin" = false :=
    Bool.eq_false_iff.2 fun e => ds.not_isReferenceKey_deltaKey k (.inr e)
  have hd : endswith (ds.deltaKey k) ".delta" = true := by
    rw [DeltaSpace.deltaKey_eq, DeltaSpace.endswith_directKey _ _ (by decide)]
    exact endswith_append _ _
  unfold delete
  refine wpR_read rfl stable_agreesOff_put h (fun w₀ l₀ _ h₀ _ => ?_) fun _ _ _ => trivial
  split
  rotate_left
  · exact fun _ _ _ => trivial
  simp only [hr, hd, Bool.false_eq_true, if_false, if_true]
  exact wpR_deleteDelta_put hk _ _ h₀

/-- Once both have returned, a store that still has the deltaspace's reference is good: the
`put`'s delta is bound to it, and every other object is as it was, but `k`'s delta, gone. -/
theorem good_of_race {s t : Store} (hwf : StoreWF s) (hg : Good E s)
    (hu : Unreferenced (s.erase ⟨ds.bucket, ds.deltaKey k⟩) ⟨ds.bucket, ds.referenceKey⟩)
    (hp : BoundDelta E ds n t) (hd : AgreesOff ds n (s.erase ⟨ds.bucket, ds.deltaKey k⟩) t)
    (href : ∃ R, t.lookup ⟨ds.bucket, ds.referenceKey⟩ = some R) : Good E t := by
  intro key o rk rs ho hrk hrs
  obtain ⟨X, ⟨o', ho', hrk', hrs'⟩, hR⟩ := hp
  obtain ⟨R, hR'⟩ := href
  by_cases e₁ : key = ⟨ds.bucket, ds.deltaKey n⟩
  · subst e₁
    obtain rfl := Option.some_inj.1 (ho.symm.trans ho')
    obtain rfl := Option.some_inj.1 (hrk.symm.trans hrk')
    obtain rfl := Option.some_inj.1 (hrs.symm.trans hrs')
    obtain ⟨h₁, h₂, -⟩ := hR R hR'
    exact ⟨R, hR', h₁, h₂⟩
  by_cases e₂ : key = ⟨ds.bucket, ds.referenceKey⟩
  · subst e₂
    obtain rfl := Option.some_inj.1 (ho.symm.trans hR')
    rw [(hR _ hR').2.2] at hrk; cases hrk
  -- elsewhere the store is the first one without `k`'s delta
  have ho₀ : (s.erase ⟨ds.bucket, ds.deltaKey k⟩).lookup key = some o := (hd key e₂ e₁).symm.trans ho
  have hk : key ≠ ⟨ds.bucket, ds.deltaKey k⟩ := by
    rintro rfl; rw [AList.lookup_erase] at ho₀; cases ho₀
  have hs : s.lookup key = some o := by rwa [AList.lookup_erase_ne hk] at ho₀
  obtain ⟨ref, href₀, hfs⟩ := hg key o rk rs hs hrk hrs
  -- its reference is not the deltaspace's, and no delta
  have hrk₀ : IsReferenceKey rk := by
    obtain ⟨ds', m, -, rfl⟩ := hwf key o hs rk hrk
    exact ds'.isReferenceKey_referenceKey
  have hne₁ := hu key o rk rs ho₀ hrk hrs
  have hne₂ : ∀ m, (⟨key.bucket, rk⟩ : ObjectKey) ≠ ⟨ds.bucket, ds.deltaKey m⟩ := fun m e => by
    have e' : rk = ds.deltaKey m := congrArg ObjectKey.key e
    exact ds.not_isReferenceKey_deltaKey m (e' ▸ hrk₀)
  refine ⟨ref, ?_, hfs⟩
  rw [hd _ hne₁ (hne₂ n), AList.lookup_erase_ne (hne₂ k), href₀]

end Race

/-- A `put` of a delta candidate racing the delete of another delta, the deltaspace's last, from a
well-formed, sound and good store, their calls interleaved in any order. Once both have
returned, the store is good if the deltaspace's reference is still there. -/
theorem put_delete_race_good {f : LocalFile} {ds : DeltaSpace} {k : String}
    (hc : svc.shouldUseDelta f.name = true) (hk : '/' ∉ k.data) (hne : f.name ≠ k) {s : Store}
    (hwf : StoreWF s) (hsd : Sound E s) (hg : Good E s)
    (hu : Unreferenced (s.erase ⟨ds.bucket, ds.deltaKey k⟩) ⟨ds.bucket, ds.referenceKey⟩)
    (w₁ w₂ : World) {d : Duo PutSummary DeleteResult}
    (h : Relation.ReflTransGen (Duo.Step E)
      ⟨s, [], svc.put f ds none, w₁, delete ⟨ds.bucket, ds.deltaKey k⟩, w₂⟩ d)
    {a₁ : PutSummary} {a₂ : DeleteResult} (h₁ : d.p₁.outcome = some (.ok a₁))
    (h₂ : d.p₂.outcome = some (.ok a₂))
    (href : ∃ R, d.store.lookup ⟨ds.bucket, ds.referenceKey⟩ = some R) : Good E d.store := by
  obtain ⟨p₁, p₂⟩ := Duo.star_wpR h ⟨guar_put svc f ds none hc, (writes_delete_deltaKey hk).guar,
    wpR_put_delete svc hc hne (hwf.soundRef hsd ds), wpR_delete_put hk fun _ _ _ => rfl⟩ h₁ h₂
  exact good_of_race hwf hg hu p₁ p₂ href

def deleteRaceStart : Duo PutSummary DeleteResult :=
  ⟨xSpaceWorld.store, [], sample.put ⟨"b.zip", [1, 2]⟩ ⟨"b", "x"⟩ none, World.empty,
    delete ⟨"b", DeltaSpace.deltaKey ⟨"b", "x"⟩ "a.zip"⟩, World.empty⟩

def serialDeleteRace : Duo PutSummary DeleteResult :=
  Duo.schedule sampleEngine (List.replicate 30 true ++ List.replicate 10 false) deleteRaceStart

theorem put_delete_race_good_sample :
    sample.shouldUseDelta (LocalFile.name ⟨"b.zip", [1, 2]⟩) = true ∧ '/' ∉ "a.zip".data ∧
    LocalFile.name ⟨"b.zip", [1, 2]⟩ ≠ "a.zip" ∧ StoreWF xSpaceWorld.store ∧
    Sound sampleEngine xSpaceWorld.store ∧ Good sampleEngine xSpaceWorld.store ∧
    Unreferenced (xSpaceWorld.store.erase ⟨"b", DeltaSpace.deltaKey ⟨"b", "x"⟩ "a.zip"⟩)
      ⟨"b", DeltaSpace.referenceKey ⟨"b", "x"⟩⟩ ∧
    Relation.ReflTransGen (Duo.Step sampleEngine) deleteRaceStart serialDeleteRace ∧
    (∃ a₁ a₂, serialDeleteRace.p₁.outcome = some (.ok a₁) ∧
      serialDeleteRace.p₂.outcome = some (.ok a₂)) ∧
    (∃ R, serialDeleteRace.store.lookup ⟨"b", DeltaSpace.referenceKey ⟨"b", "x"⟩⟩ = some R) ∧
    Good sampleEngine serialDeleteRace.store :=
  have hu : Unreferenced (xSpaceWorld.store.erase ⟨"b", DeltaSpace.deltaKey ⟨"b", "x"⟩ "a.zip"⟩)
      ⟨"b", DeltaSpace.referenceKey ⟨"b", "x"⟩⟩ :=
    (xSpaceWorld_inv.erase (xSpaceWorld_inv.valid.unreferenced (by decide))).valid.unreferenced_of_listing
      (AList.lookup_erase _ _) (by decide)
  have href : ∃ R, serialDeleteRace.store.lookup ⟨"b", DeltaSpace.referenceKey ⟨"b", "x"⟩⟩ = some R :=
    ⟨_, rfl⟩
  have hI := xSpaceWorld_inv
  ⟨rfl, by decide, by decide, hI.valid.wf, hI.valid.sound, hI.good, hu, Duo.star_schedule _ _,
    ⟨_, _, rfl, rfl⟩, href,
    put_delete_race_good sample (by decide) (by decide) (by decide) hI.valid.wf hI.valid.sound
      hI.good hu World.empty World.empty (Duo.star_schedule _ _) rfl rfl href⟩

def orphanDeleteRace : Duo PutSummary DeleteResult :=
  Duo.schedule sampleEngine
    (List.replicate 9 true ++ List.replicate 10 false ++ List.replicate 30 true) deleteRaceStart

theorem put_delete_race_orphans_delta :
    Inv sampleEngine deleteRaceStart.store ∧
    Relation.ReflTransGen (Duo.Step sampleEngine) deleteRaceStart orphanDeleteRace ∧
    (∃ a₁ a₂, orphanDeleteRace.p₁.outcome = some (.ok a₁) ∧
      orphanDeleteRace.p₂.outcome = some (.ok a₂) ∧ a₂.cleanedReference = some "x/reference.bin") ∧
    ((orphanDeleteRace.store.lookup ⟨"b", "x/b.zip.delta"⟩).bind fun o =>
      resolveMetadata o.metadata "ref_key") = some "x/reference.bin" ∧
    orphanDeleteRace.store.lookup ⟨"b", "x/reference.bin"⟩ = none :=
  ⟨xSpaceWorld_inv, Duo.star_schedule _ _, ⟨_, _, rfl, rfl, rfl⟩, by decide, by decide⟩

end DeltaService

end DeltaGlider
