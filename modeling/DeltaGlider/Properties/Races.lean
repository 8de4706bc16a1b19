import DeltaGlider.Concurrent
import DeltaGlider.Properties.RoundTrip

/-! # Two `put`s racing for a deltaspace's first reference

The re-head in `_create_reference` binds the zero-delta to the SHA it reads back. -/

namespace DeltaGlider

namespace DeltaService

variable (svc : DeltaService) {E : Engine}

/-- What a `put` of a delta candidate `f` named `n` into `ds` may write: the reference, as `f`'s
bytes with their SHA, or `n`'s delta; never a deletion. -/
def PutWrite (E : Engine) (f : LocalFile) (ds : DeltaSpace) (n : String) (k : ObjectKey)
    (v : Option StoredObject) : Prop :=
  v ≠ none ∧ ((k = ⟨ds.bucket, ds.referenceKey⟩ ∧
    ∀ o, v = some o → PlainWrite f.data (E.sha256 f.data) o) ∨ k = ⟨ds.bucket, ds.deltaKey n⟩)

section Guarantee

variable (f : LocalFile) (ds : DeltaSpace) (fs n : String) (size : Nat)

theorem writes_createReference_some :
    Writes (fun _ v => v ≠ none) (svc.createReference f ds fs n size) := by
  unfold createReference
  repeat' first
    | exact .pure _
    | exact .perform_none rfl
    | exact .storagePut (Option.some_ne_none _)
    | refine .bind ?_ fun _ => ?_
    | refine .withTemp fun _ => ?_
    | refine .tryFinally ?_ ?_

theorem writes_createDelta_some (hd : ObjectHead) :
    Writes (fun _ v => v ≠ none) (svc.createDelta f ds hd fs n size) := by
  unfold createDelta
  refine .bind (writes_requireRefSha hd) fun _ => ?_
  repeat' first
    | exact .pure _
    | exact .throw _
    | exact .perform_none rfl
    | exact (writes_ensureReference ds _).mono fun _ _ => False.elim
    | exact .storagePut (Option.some_ne_none _)
    | refine .bind ?_ fun _ => ?_
    | refine .tryCatch ?_ fun _ => ?_
    | refine .withTemp fun _ => ?_
    | refine .tryFinally ?_ ?_
    | split

theorem guar_put (o : Option String) (hc : svc.shouldUseDelta (originalNameOf f o) = true) :
    Guar E (PutWrite E f ds (originalNameOf f o)) (svc.put f ds o) := by
  unfold put
  refine .call (fun _ _ h => by cases h) fun w => ?_
  simp only [Call.interp, hc, Bool.not_true]
  refine .call (fun _ _ h => by cases h) fun w => ?_
  simp only [Call.interp, Prog.bind]
  split
  · exact (((writes_createReference svc f ds _ _ _).and
      (writes_createReference_some svc f ds _ _ _)).mono fun _ _ ⟨h1, h2⟩ =>
        ⟨h2, h1.imp id (·.1)⟩).guar
  · exact (((writes_createDelta svc f ds _ _ _ _).and
      (writes_createDelta_some svc f ds _ _ _ _)).mono fun _ _ ⟨h1, h2⟩ => ⟨h2, .inr h1.1⟩).guar

end Guarantee

/-- `n`'s delta in `ds` is recoverable: the reference there records the SHA of its own bytes,
the delta records that SHA and `f`'s, and it decodes against those bytes to `f`. -/
def Recoverable (E : Engine) (ds : DeltaSpace) (f : LocalFile) (n : String) (s : Store) : Prop :=
  ∃ (F : StoredObject) (z : Bytes) (m : DeltaMeta), s.lookup ⟨ds.bucket, ds.referenceKey⟩ = some F ∧
    s.lookup ⟨ds.bucket, ds.deltaKey n⟩ = some ⟨z, m.toDict⟩ ∧ m.refKey = ds.referenceKey ∧
    m.refSha256 = E.sha256 F.data ∧ resolveMetadata F.metadata "file_sha256" = some (E.sha256 F.data) ∧
    m.fileSha256 = E.sha256 f.data ∧ E.decode F.data z = some f.data

theorem Recoverable.get {ds : DeltaSpace} {f : LocalFile} {n : String} {w : World}
    (h : Recoverable E ds f n w.store) (hc : w.cache.lookup (ds.bucket, ds.keyPrefix) = none)
    (name : String) :
    ∃ w', run E (get ⟨ds.bucket, ds.deltaKey n⟩ (.path (.user name))) w = (.ok (), w') ∧
      w'.files.lookup (.user name) = some f.data := by
  obtain ⟨F, z, m, hF, hz, hk, hrs, -, hfs, hd⟩ := h
  obtain ⟨b, P⟩ := ds
  have hp : refPrefix m.refKey = P := by rw [hk, refPrefix_referenceKey]
  have hmiss : cacheHas E w.cache b P m.refSha256 = false := by simp [cacheHas, hc]
  have hens := run_ensureReference_miss ⟨b, P⟩ _ hmiss hF hrs.symm
  rw [← hp] at hens
  exact get_delta_ok hz hens (by simp) hd hfs.symm name

theorem run_get_stale_reference {w : World} {k : ObjectKey} {z : Bytes} {m : DeltaMeta}
    {F : StoredObject} (hk : w.store.lookup k = some ⟨z, m.toDict⟩)
    (hc : w.cache.lookup (k.bucket, refPrefix m.refKey) = none)
    (hF : w.store.lookup ⟨k.bucket, DeltaSpace.referenceKey ⟨k.bucket, refPrefix m.refKey⟩⟩ = some F)
    (hs : E.sha256 F.data ≠ m.refSha256) (out : Sink) :
    (run E (get k out) w).1 = .error (.integrityMismatch
      ("Reference SHA mismatch: expected " ++ m.refSha256 ++ ", got " ++ E.sha256 F.data)) := by
  simp [get, run_bind, hk, fromDict_toDict, Prog.ofExcept, ensureReference, cacheReference,
    cacheHas, hc, hF, hs]

section Race

variable {f g : LocalFile} {ds : DeltaSpace} {n m : String} {size : Nat} {me : Bool} {w : World}
  {l : Log}

theorem putWrite_reference {k : ObjectKey} {v : Option StoredObject} (h : PutWrite E g ds m k v)
    (hk : k = ⟨ds.bucket, ds.referenceKey⟩) :
    ∃ o, v = some o ∧ PlainWrite g.data (E.sha256 g.data) o := by
  obtain ⟨hv, ⟨-, ho⟩ | hd⟩ := h
  · obtain ⟨o, rfl⟩ := Option.ne_none_iff_exists'.1 hv
    exact ⟨o, rfl, ho o rfl⟩
  · exact absurd (congrArg ObjectKey.key (hk.symm.trans hd)) (ds.referenceKey_ne_deltaKey m)

theorem putWrite_ne_delta {k : ObjectKey} {v : Option StoredObject} (h : PutWrite E g ds m k v)
    (hne : n ≠ m) : k ≠ ⟨ds.bucket, ds.deltaKey n⟩ := by
  rintro rfl
  rcases h.2 with ⟨e, -⟩ | e
  · exact ds.referenceKey_ne_deltaKey n (congrArg ObjectKey.key e).symm
  · exact hne (ds.deltaKey_inj.1 (congrArg ObjectKey.key e))

def OtherOrNone (E : Engine) (g : LocalFile) (v : Option StoredObject) : Prop :=
  ∀ o, v = some o → PlainWrite g.data (E.sha256 g.data) o

def IsOtherRef (E : Engine) (g : LocalFile) (v : Option StoredObject) : Prop :=
  ∃ o, v = some o ∧ PlainWrite g.data (E.sha256 g.data) o

def DeltaFor (E : Engine) (ds : DeltaSpace) (f : LocalFile) (d : Bytes) (rs : String)
    (v : Option StoredObject) : Prop :=
  ∃ (z : Bytes) (m : DeltaMeta), v = some ⟨z, m.toDict⟩ ∧ m.refKey = ds.referenceKey ∧
    m.refSha256 = rs ∧ m.fileSha256 = E.sha256 f.data ∧ E.decode d z = some f.data

/-- A reference that records the SHA of its bytes, and that holds `f`'s bytes only if the
zero-delta's bound SHA `b` is `f`'s. -/
def RefFor (E : Engine) (f : LocalFile) (b : String) (v : Option StoredObject) : Prop :=
  ∃ F, v = some F ∧ resolveMetadata F.metadata "file_sha256" = some (E.sha256 F.data) ∧
    (F.data = f.data → b = E.sha256 f.data)

def OwnOrOther (E : Engine) (g : LocalFile) (O : StoredObject) (v : Option StoredObject) : Prop :=
  v = some O ∨ IsOtherRef E g v

theorem stable_otherOrNone :
    Stable (PutWrite E g ds m) fun s => OtherOrNone E g (s.lookup ⟨ds.bucket, ds.referenceKey⟩) :=
  stable_lookup fun _ _ hq hk o ho => by
    obtain ⟨o', rfl, h'⟩ := putWrite_reference hq hk
    cases ho; exact h'

theorem stable_isOtherRef :
    Stable (PutWrite E g ds m) fun s => IsOtherRef E g (s.lookup ⟨ds.bucket, ds.referenceKey⟩) :=
  stable_lookup fun _ _ hq hk => putWrite_reference hq hk

theorem stable_deltaFor (hne : n ≠ m) (d : Bytes) (rs : String) :
    Stable (PutWrite E g ds m) fun s => DeltaFor E ds f d rs (s.lookup ⟨ds.bucket, ds.deltaKey n⟩) :=
  stable_lookup fun _ _ hq hk => absurd hk (putWrite_ne_delta hq hne)

theorem stable_ownOrOther (O : StoredObject) :
    Stable (PutWrite E g ds m) fun s => OwnOrOther E g O (s.lookup ⟨ds.bucket, ds.referenceKey⟩) :=
  stable_lookup fun _ _ hq hk => .inr (putWrite_reference hq hk)

theorem stable_refFor {b : String} (hb : g.data = f.data → b = E.sha256 f.data) :
    Stable (PutWrite E g ds m) fun s => RefFor E f b (s.lookup ⟨ds.bucket, ds.referenceKey⟩) :=
  stable_lookup fun _ _ hq hk => by
    obtain ⟨o, rfl, ho, hs, -⟩ := putWrite_reference hq hk
    exact ⟨o, rfl, by rw [ho]; exact hs, fun e => hb (ho.symm.trans e)⟩

theorem recoverable_of_refFor {b : String} {s : Store}
    (hr : RefFor E f b (s.lookup ⟨ds.bucket, ds.referenceKey⟩))
    (hd : DeltaFor E ds f f.data b (s.lookup ⟨ds.bucket, ds.deltaKey n⟩))
    (hown : ∃ F, s.lookup ⟨ds.bucket, ds.referenceKey⟩ = some F ∧ F.data = f.data) :
    Recoverable E ds f n s := by
  obtain ⟨F, hF, hs, hb⟩ := hr
  obtain ⟨F', hF', e⟩ := hown
  obtain rfl : F' = F := Option.some_inj.1 (hF'.symm.trans hF)
  obtain ⟨z, m, hz, hk, hrs, hfs, hdz⟩ := hd
  exact ⟨_, z, m, hF, hz, hk, by rw [hrs, hb e, e], hs, hfs, by rw [e]; exact hdz⟩

/-- `_create_reference` racing the other client's: the zero-delta is bound to the SHA the re-head
reads, which is this client's whenever the reference left holds its bytes. -/
theorem wpR_createReference_race (hdec : ∀ r t d, E.encode r t = some d → E.decode r d = some t)
    (hne : n ≠ m) :
    wpR E (PutWrite E g ds m) me (svc.createReference f ds (E.sha256 f.data) n size)
      (OnOk fun a s _ => a.operation = "create_reference" ∧
        ((∃ F, s.lookup ⟨ds.bucket, ds.referenceKey⟩ = some F ∧ F.data = f.data) →
          Recoverable E ds f n s)) w l := by
  have hT : Stable (PutWrite E g ds m) fun _ => True := fun _ _ _ _ _ => trivial
  unfold createReference
  refine wpR_read rfl hT trivial (fun _ _ t _ _ => ?_) fun _ _ _ => trivial
  refine wpR_call hT trivial (fun _ _ _ _ _ => ?_) fun _ _ _ => trivial
  refine wpR_read rfl (stable_ownOrOther _) (.inl (AList.lookup_insert _))
    (fun w₂ l₂ hd h₂ hhd => ?_) fun _ _ _ => trivial
  simp only [Call.interp, Except.ok.injEq] at hhd h₂
  subst hhd
  dsimp only
  generalize hb : boundRefSha _ (E.sha256 f.data) = b
  -- the bound SHA is this client's whenever both files agree, and the reference describes it
  have hfacts : (g.data = f.data → b = E.sha256 f.data) ∧
      RefFor E f b (w₂.store.lookup ⟨ds.bucket, ds.referenceKey⟩) := by
    rcases h₂ with hO | ⟨o, ho, hpo⟩
    · rw [hO] at hb ⊢
      simp only [Option.map_some', Option.some_bind, StoredObject.head_metadata,
        (resolveMetadata_refToDict _).1, boundRefSha_self] at hb
      exact ⟨fun _ => hb.symm, _, rfl, by simp, fun _ => hb.symm⟩
    · rw [ho] at hb ⊢
      simp only [Option.map_some', Option.some_bind, StoredObject.head_metadata, hpo.2.1] at hb
      have hgb : g.data = f.data → b = E.sha256 f.data := fun e => by
        rw [← hb, e, boundRefSha_self]
      exact ⟨hgb, o, rfl, by rw [hpo.1]; exact hpo.2.1, fun e => hgb (hpo.1.symm.trans e)⟩
  obtain ⟨hgb, hR⟩ := hfacts
  have hS : Stable (PutWrite E g ds m) fun s => RefFor E f b (s.lookup ⟨ds.bucket, ds.referenceKey⟩) :=
    stable_refFor hgb
  have hS' : Stable (PutWrite E g ds m) fun s => RefFor E f b (s.lookup ⟨ds.bucket, ds.referenceKey⟩) ∧
      DeltaFor E ds f f.data b (s.lookup ⟨ds.bucket, ds.deltaKey n⟩) :=
    hS.and (stable_deltaFor hne _ _)
  refine wpR_read rfl hS hR (fun w₃ l₃ _ h₃ _ => ?_) fun _ _ _ => trivial
  refine wpR_bind_onOk (wpR_withTemp hS hS' h₃ fun w₄ l₄ _ h₄ => ?_)
    fun _ w₅ l₅ h₅ => wpR_pure hS' h₅ fun _ _ h => ⟨rfl, recoverable_of_refFor h.1 h.2⟩
  refine wpR_read rfl hS h₄ (fun w₅ l₅ z h₅ hz => ?_) fun _ _ _ => trivial
  refine wpR_read rfl hS h₅ (fun w₆ l₆ _ h₆ _ => ?_) fun _ _ _ => trivial
  refine wpR_perform_stable hS hS' h₆ fun w₇ h₇ => ⟨?_, _, _, AList.lookup_insert _, rfl, rfl, rfl,
    hdec _ _ _ (Call.interp_encode_ok hz)⟩
  obtain ⟨F, hF, hrest⟩ := h₇
  exact ⟨F, (AList.lookup_insert_ne (ds.reference_ne_delta n)).trans hF, hrest⟩

theorem wpR_createDelta_race (hinj : Function.Injective E.sha256)
    (hdec : ∀ r t d, E.encode r t = some d → E.decode r d = some t) (hne : n ≠ m)
    {X : StoredObject} (hX : PlainWrite g.data (E.sha256 g.data) X)
    (h : IsOtherRef E g (w.store.lookup ⟨ds.bucket, ds.referenceKey⟩)) :
    wpR E (PutWrite E g ds m) me
      (svc.createDelta f ds (X.head ⟨ds.bucket, ds.referenceKey⟩) (E.sha256 f.data) n size)
      (OnOk fun _ s _ => IsOtherRef E g (s.lookup ⟨ds.bucket, ds.referenceKey⟩) ∧
        DeltaFor E ds f g.data (E.sha256 g.data) (s.lookup ⟨ds.bucket, ds.deltaKey n⟩)) w l := by
  have hS : Stable (PutWrite E g ds m) fun s =>
      IsOtherRef E g (s.lookup ⟨ds.bucket, ds.referenceKey⟩) := stable_isOtherRef
  unfold createDelta requireRefSha
  rw [StoredObject.head_metadata, hX.2.1]
  dsimp only
  split
  · refine wpR_pure_bind (wpR_bind_read (writes_ensureReference ds _) hS h (fun _ w₁ l₁ h₁ => ?_)
      fun _ _ _ => trivial)
    refine wpR_read rfl hS h₁ (fun w₂ l₂ r h₂ hr => ?_) fun _ _ _ => trivial
    have hrg : r = g.data := hinj (Call.interp_getValidatedRef_ok hr)
    subst hrg
    refine wpR_withTemp hS (hS.and (stable_deltaFor hne _ _)) h₂ fun w₃ l₃ _ h₃ => ?_
    refine wpR_tryCatch_read rfl hS h₃ fun w₄ l₄ δ h₄ hδ => ?_
    have hδ' := hdec _ _ _ (Call.interp_encode_ok hδ)
    split
    · exact fun _ _ _ => trivial
    refine wpR_read rfl hS h₄ (fun w₅ l₅ _ h₅ _ => ?_) fun _ _ _ => trivial
    refine wpR_call hS h₅ (fun w₆ l₆ _ h₆ _ => ?_) fun _ _ _ => trivial
    refine wpR_pure (hS.and (stable_deltaFor hne _ _)) ⟨?_, _, _, AList.lookup_insert _, rfl, rfl, rfl,
      hδ'⟩ fun _ _ h => h
    obtain ⟨o, ho, hpo⟩ := h₆
    exact ⟨o, (AList.lookup_insert_ne (ds.reference_ne_delta n)).trans ho, hpo⟩
  · exact fun _ _ _ => trivial

theorem recoverable_of_other {s : Store} (hr : IsOtherRef E g (s.lookup ⟨ds.bucket, ds.referenceKey⟩))
    (hd : DeltaFor E ds f g.data (E.sha256 g.data) (s.lookup ⟨ds.bucket, ds.deltaKey n⟩)) :
    Recoverable E ds f n s := by
  obtain ⟨F, hF, hd', hs, -⟩ := hr
  obtain ⟨z, m, hz, hk, hrs, hfs, hdz⟩ := hd
  exact ⟨F, z, m, hF, hz, hk, by rw [hrs, hd'], by rw [hd']; exact hs, hfs, by rw [hd']; exact hdz⟩

theorem wpR_put_race (hinj : Function.Injective E.sha256)
    (hdec : ∀ r t d, E.encode r t = some d → E.decode r d = some t)
    (hc : svc.shouldUseDelta f.name = true) (hne : f.name ≠ g.name)
    (h : OtherOrNone E g (w.store.lookup ⟨ds.bucket, ds.referenceKey⟩)) :
    wpR E (PutWrite E g ds g.name) me (svc.put f ds none)
      (OnOk fun a s _ => a.operation = "create_delta" ∨
        (∃ F, s.lookup ⟨ds.bucket, ds.referenceKey⟩ = some F ∧ F.data = f.data) →
          Recoverable E ds f f.name s) w l := by
  have hS : Stable (PutWrite E g ds g.name) fun s =>
      OtherOrNone E g (s.lookup ⟨ds.bucket, ds.referenceKey⟩) := stable_otherOrNone
  unfold put
  refine wpR_read rfl hS h (fun w₀ l₀ fs h₀ hfs => ?_) fun _ _ _ => trivial
  simp only [Call.interp, Except.ok.injEq] at hfs h₀
  subst hfs
  simp only [originalNameOf, hc, Bool.not_true]
  refine wpR_read rfl hS h₀ (fun w₁ l₁ hd h₁ hhd => ?_) fun _ _ _ => trivial
  simp only [Call.interp, Except.ok.injEq] at hhd h₁
  subst hhd
  rcases hK : w₁.store.lookup ⟨ds.bucket, ds.referenceKey⟩ with _ | X <;>
    simp only [Call.interp, hK, Option.map_none', Option.map_some']
  · refine wpR_mono ?_ (wpR_createReference_race svc hdec hne)
    rintro (_ | a) _ _ ⟨hop, h'⟩
    · trivial
    · rintro (hd | hF)
      · exact absurd (hop.symm.trans hd) (by decide)
      · exact h' hF
  · refine wpR_mono ?_ (wpR_createDelta_race svc hinj hdec hne (h₁ X hK) ⟨X, hK, h₁ X hK⟩)
    rintro (_ | a) _ _ ⟨hr, hd⟩
    · trivial
    · exact fun _ => recoverable_of_other hr hd

end Race

def GetReturns (E : Engine) (ds : DeltaSpace) (f : LocalFile) (n : String) (s : Store) : Prop :=
  ∀ w : World, w.store = s → w.cache.lookup (ds.bucket, ds.keyPrefix) = none → ∀ name,
    ∃ w', run E (get ⟨ds.bucket, ds.deltaKey n⟩ (.path (.user name))) w = (.ok (), w') ∧
      w'.files.lookup (.user name) = some f.data

theorem Recoverable.getReturns {ds : DeltaSpace} {f : LocalFile} {n : String} {s : Store}
    (h : Recoverable E ds f n s) : GetReturns E ds f n s := by
  rintro w rfl hc name
  exact h.get hc name

/-- Two `put`s of delta candidates with distinct names into a deltaspace without a reference,
their calls interleaved in any order. Once both have returned, the delta of each one that
reported `create_delta`, or whose file the surviving reference holds, is recoverable. -/
theorem put_race_recoverable (hinj : Function.Injective E.sha256)
    (hdec : ∀ r t d, E.encode r t = some d → E.decode r d = some t) {f₁ f₂ : LocalFile}
    {ds : DeltaSpace} (hc₁ : svc.shouldUseDelta f₁.name = true)
    (hc₂ : svc.shouldUseDelta f₂.name = true) (hne : f₁.name ≠ f₂.name) {s : Store}
    (hs : s.lookup ⟨ds.bucket, ds.referenceKey⟩ = none) (w₁ w₂ : World)
    {d : Duo PutSummary PutSummary}
    (h : Relation.ReflTransGen (Duo.Step E)
      ⟨s, [], svc.put f₁ ds none, w₁, svc.put f₂ ds none, w₂⟩ d)
    {a₁ a₂ : PutSummary} (h₁ : d.p₁.outcome = some (.ok a₁)) (h₂ : d.p₂.outcome = some (.ok a₂)) :
    (a₁.operation = "create_delta" ∨
        (∃ F, d.store.lookup ⟨ds.bucket, ds.referenceKey⟩ = some F ∧ F.data = f₁.data) →
      Recoverable E ds f₁ f₁.name d.store ∧ GetReturns E ds f₁ f₁.name d.store) ∧
    (a₂.operation = "create_delta" ∨
        (∃ F, d.store.lookup ⟨ds.bucket, ds.referenceKey⟩ = some F ∧ F.data = f₂.data) →
      Recoverable E ds f₂ f₂.name d.store ∧ GetReturns E ds f₂ f₂.name d.store) := by
  have hnone : ∀ g : LocalFile, OtherOrNone E g (s.lookup ⟨ds.bucket, ds.referenceKey⟩) :=
    fun _ o ho => by rw [hs] at ho; cases ho
  obtain ⟨p₁, p₂⟩ := Duo.star_wpR h ⟨guar_put svc f₁ ds none hc₁, guar_put svc f₂ ds none hc₂,
    wpR_put_race svc hinj hdec hc₁ hne (hnone f₂),
    wpR_put_race svc hinj hdec hc₂ (Ne.symm hne) (hnone f₁)⟩ h₁ h₂
  exact ⟨fun hc => ⟨p₁ hc, (p₁ hc).getReturns⟩, fun hc => ⟨p₂ hc, (p₂ hc).getReturns⟩⟩

theorem char_toNat_ofNat {n : Nat} (h : n < 256) : (Char.ofNat n).toNat = n := by
  have hv : n.isValidChar := Or.inl (by omega)
  simp only [Char.ofNat, dif_pos hv]
  rfl

def byteHash (d : Bytes) : String := ⟨d.map fun b => Char.ofNat b.toNat⟩

theorem byteHash_injective : Function.Injective byteHash := by
  intro a b h
  refine List.map_injective_iff.2 (fun x y hxy => ?_) (congrArg String.data h)
  have := congrArg Char.toNat hxy
  rw [char_toNat_ofNat x.toNat_lt, char_toNat_ofNat y.toNat_lt] at this
  exact UInt8.toNat.inj this

def exactEngine : Engine := Engine.copy byteHash

def relSpace : DeltaSpace := ⟨"b", "rel"⟩

def raceStart : Duo PutSummary PutSummary :=
  ⟨∅, [], sample.put ⟨"v1.zip", [1, 2, 3]⟩ relSpace none, World.empty,
    sample.put ⟨"v2.zip", [1, 2]⟩ relSpace none, World.empty⟩

def serialRace : Duo PutSummary PutSummary :=
  Duo.schedule exactEngine (List.replicate 20 true ++ List.replicate 20 false) raceStart

theorem put_race_recoverable_sample :
    Function.Injective exactEngine.sha256 ∧
    (∀ r t d, exactEngine.encode r t = some d → exactEngine.decode r d = some t) ∧
    sample.shouldUseDelta (LocalFile.name ⟨"v1.zip", [1, 2, 3]⟩) = true ∧
    sample.shouldUseDelta (LocalFile.name ⟨"v2.zip", [1, 2]⟩) = true ∧
    LocalFile.name ⟨"v1.zip", [1, 2, 3]⟩ ≠ LocalFile.name ⟨"v2.zip", [1, 2]⟩ ∧
    raceStart.store.lookup ⟨relSpace.bucket, relSpace.referenceKey⟩ = none ∧
    ∃ a₁ a₂, serialRace.p₁.outcome = some (.ok a₁) ∧ serialRace.p₂.outcome = some (.ok a₂) ∧
    ((a₁.operation = "create_delta" ∨
        (∃ F, serialRace.store.lookup ⟨relSpace.bucket, relSpace.referenceKey⟩ = some F ∧
          F.data = [1, 2, 3]) →
      Recoverable exactEngine relSpace ⟨"v1.zip", [1, 2, 3]⟩ "v1.zip" serialRace.store ∧
        GetReturns exactEngine relSpace ⟨"v1.zip", [1, 2, 3]⟩ "v1.zip" serialRace.store) ∧
    (a₂.operation = "create_delta" ∨
        (∃ F, serialRace.store.lookup ⟨relSpace.bucket, relSpace.referenceKey⟩ = some F ∧
          F.data = [1, 2]) →
      Recoverable exactEngine relSpace ⟨"v2.zip", [1, 2]⟩ "v2.zip" serialRace.store ∧
        GetReturns exactEngine relSpace ⟨"v2.zip", [1, 2]⟩ "v2.zip" serialRace.store)) :=
  have hinj : Function.Injective exactEngine.sha256 := byteHash_injective
  have hdec := Engine.copy_decode_encode byteHash
  ⟨hinj, hdec, rfl, rfl, by decide, rfl, _, _, rfl, rfl,
    put_race_recoverable sample hinj hdec (by decide) (by decide) (by decide) (by decide) World.empty
      World.empty (Duo.star_schedule _ _) rfl rfl⟩

def staleRace : Duo PutSummary PutSummary :=
  Duo.schedule exactEngine
    ([true, true, false, false, true, true, true, false, false, false] ++
      List.replicate 20 true ++ List.replicate 20 false) raceStart

/-- Both `put`s return `create_reference`, and the first zero-delta stays bound to `v1.zip`'s SHA,
which the surviving reference (`v2.zip`'s bytes) does not have: `get` of it from a client with
an empty cache fails the reference check. -/
theorem put_race_stale_zero_delta :
    Relation.ReflTransGen (Duo.Step exactEngine) raceStart staleRace ∧
    (∃ a₁ a₂, staleRace.p₁.outcome = some (.ok a₁) ∧ staleRace.p₂.outcome = some (.ok a₂) ∧
      a₁.operation = "create_reference" ∧ a₂.operation = "create_reference") ∧
    ((staleRace.store.lookup ⟨"b", "rel/v1.zip.delta"⟩).bind fun o =>
        resolveMetadata o.metadata "ref_sha256") ≠
      ((staleRace.store.lookup ⟨"b", "rel/reference.bin"⟩).bind fun o =>
        resolveMetadata o.metadata "file_sha256") ∧
    (run exactEngine (get ⟨"b", "rel/v1.zip.delta"⟩ (.path (.user "out")))
        { World.empty with store := staleRace.store }).1 = .error (.integrityMismatch
        ("Reference SHA mismatch: expected " ++ byteHash [1, 2, 3] ++ ", got " ++ byteHash [1, 2])) :=
  by
  have hk : AList.lookup ⟨"b", "rel/v1.zip.delta"⟩
      (World.store { World.empty with store := staleRace.store }) = some ⟨[1, 2, 3], DeltaMeta.toDict
      ⟨"deltaglider/test", "v1.zip", byteHash [1, 2, 3], 3, "0", "rel/reference.bin",
        byteHash [1, 2, 3], 3, deltaCmd "v1.zip", some "zero-diff (reference identical)"⟩⟩ := by
    decide
  obtain ⟨F, hF, hd⟩ : ∃ F, AList.lookup ⟨"b", "rel/reference.bin"⟩
      (World.store { World.empty with store := staleRace.store }) = some F ∧ F.data = [1, 2] :=
    ⟨_, rfl, rfl⟩
  have hget : (run exactEngine (get ⟨"b", "rel/v1.zip.delta"⟩ (.path (.user "out")))
      { World.empty with store := staleRace.store }).1 = _ :=
    run_get_stale_reference hk (by rfl) hF (by rw [hd]; decide) _
  rw [hd] at hget
  exact ⟨Duo.star_schedule _ _, ⟨_, _, rfl, rfl, rfl, rfl⟩, by decide, hget⟩

def prefixEngine : Engine :=
  ⟨fun r t => if r.isPrefixOf t then some (t.drop r.length) else none, fun r d => some (r ++ d),
    byteHash⟩

def crossRace : Duo PutSummary PutSummary :=
  Duo.schedule prefixEngine
    ([true, true, false, false, true, true, false, false] ++
      List.replicate 20 true ++ List.replicate 20 false) raceStart

end DeltaService

end DeltaGlider
