import DeltaGlider.Properties.DeleteRace
import DeltaGlider.Properties.Recovery

/-! # Two deletes racing for a deltaspace's reference

Whichever of the two listings comes later sees both deltas gone, so the reference never outlives
them. -/

namespace DeltaGlider

namespace DeltaService

variable {E : Engine}

def OnlyDeltas (ds : DeltaSpace) (a b : String) (s : Store) : Prop :=
  ∀ key o, s.lookup key = some o → key.bucket = ds.bucket →
    startswith key.key ds.keyPrefix = true → endswith key.key ".delta" = true →
    key.key = ds.deltaKey a ∨ key.key = ds.deltaKey b

def Tracked (ds : DeltaSpace) (b : String) (me : Bool) (s : Store) (l : Log) : Prop :=
  s.lookup ⟨ds.bucket, ds.deltaKey b⟩ = none ↔ (!me, ⟨ds.bucket, ds.deltaKey b⟩, none) ∈ l

/-- How the delete of `a`'s delta by client `me` may end: with the reference gone, or after a
listing, at a prefix of the log, that came after its own deletion and before the deletion of
`b`'s delta. -/
def Cleaned (ds : DeltaSpace) (a b : String) (me : Bool) :
    Except Error DeleteResult → World → Log → Prop
  | .ok _, w, l => w.store.lookup ⟨ds.bucket, ds.referenceKey⟩ = none ∨
    ∃ l₂, l₂ <+: l ∧ (me, ⟨ds.bucket, ds.deltaKey a⟩, none) ∈ l₂ ∧
      (!me, ⟨ds.bucket, ds.deltaKey b⟩, none) ∉ l₂
  | .error _, _, _ => True

section View

variable {ds : DeltaSpace} {a b : String} {me : Bool} {w : World} {l : Log}

theorem OnlyDeltas.erase {s : Store} (h : OnlyDeltas ds a b s) (k : ObjectKey) :
    OnlyDeltas ds a b (s.erase k) := fun key o ho =>
  h key o (by
    by_cases e : key = k
    · rw [e, AList.lookup_erase] at ho; cases ho
    · rwa [AList.lookup_erase_ne e] at ho)

theorem stable_onlyDeltas : Stable (DeleteWrite ds b) (OnlyDeltas ds a b) := fun _ k _ hq h => by
  rw [hq.1]; exact h.erase k

theorem Tracked.env {x y : World × Log} (he : Env (DeleteWrite ds b) me x y)
    (h : Tracked ds b me x.1.store x.2) : Tracked ds b me y.1.store y.2 := by
  induction he with
  | refl => exact h
  | tail _ hs ih =>
    cases hs with
    | @write _ _ k v hq =>
      obtain ⟨rfl, -⟩ := hq
      unfold Tracked at ih ⊢
      by_cases e : k = ⟨ds.bucket, ds.deltaKey b⟩
      · subst e; simp [Store.lookup_set_self]
      · rw [Store.lookup_set_ne _ _ (Ne.symm e), ih]
        simp [Ne.symm e]

theorem Tracked.own {s : Store} (h : Tracked ds b me s l) {k : ObjectKey}
    (hk : k ≠ ⟨ds.bucket, ds.deltaKey b⟩) : Tracked ds b me (s.erase k) (l ++ [(me, k, none)]) := by
  unfold Tracked at h ⊢
  rw [AList.lookup_erase_ne (Ne.symm hk), h]
  simp [Bool.not_ne_self]

theorem deltaKey_facts (hP : ds.keyPrefix ≠ "") (n : String) :
    endswith (ds.deltaKey n) "/reference.bin" = false ∧ endswith (ds.deltaKey n) ".delta" = true ∧
      hasSlash (ds.deltaKey n) = true ∧ startswith (ds.deltaKey n) ds.keyPrefix = true := by
  have e : ds.deltaKey n = ds.keyPrefix ++ ("/" ++ (n ++ ".delta")) := by
    unfold DeltaSpace.deltaKey; rw [if_pos hP]; simp only [String.append_assoc]
  refine ⟨Bool.eq_false_iff.2 fun h => ds.not_isReferenceKey_deltaKey n (.inr h), ?_, ?_, ?_⟩
  · rw [e, ← String.append_assoc, ← String.append_assoc]; exact endswith_append _ _
  · rw [e, ← String.append_assoc]; exact hasSlash_append_slash _ _
  · rw [e]; exact startswith_append _ _

theorem remaining_isEmpty_iff (hP : ds.keyPrefix ≠ "") (hab : a ≠ b) {s : Store}
    (honly : OnlyDeltas ds a b s) :
    (((listObjects s ds.bucket ds.keyPrefix).filter fun obj =>
        endswith obj.key ".delta" && obj.key != ds.deltaKey a).map (·.key)).isEmpty = true ↔
      s.lookup ⟨ds.bucket, ds.deltaKey b⟩ = none := by
  rw [List.isEmpty_iff, List.map_eq_nil_iff, List.filter_eq_nil_iff]
  constructor
  · intro h
    rcases hb : s.lookup ⟨ds.bucket, ds.deltaKey b⟩ with _ | o
    · exact hb
    obtain ⟨-, hd, -, hs⟩ := deltaKey_facts hP b
    refine absurd ?_ (h _ (mem_listObjects hb hs))
    simp [StoredObject.head, hd, (ds.deltaKey_inj.not).2 (Ne.symm hab)]
  · intro hb obj hobj
    obtain ⟨key, o, hko, hkb, hks, rfl⟩ := mem_listObjects_iff.1 hobj
    simp only [StoredObject.head, Bool.and_eq_true, bne_iff_ne, ne_eq, not_and, not_not]
    intro hke
    refine (honly key o hko hkb hks hke).resolve_right fun e => ?_
    have : key = ⟨ds.bucket, ds.deltaKey b⟩ := by rw [← hkb, ← e]
    rw [this, hb] at hko
    cases hko

theorem Tracked.read {c : Call} (hc : c.write = none) (h : Tracked ds b me w.store l) :
    Tracked ds b me (c.interp E w).2.store (l ++ c.logged me) := by
  rw [Call.interp_store_of_write_none hc]
  simpa [Call.logged, hc] using h

theorem wpR_delete_pair (hP : ds.keyPrefix ≠ "") (ha : '/' ∉ a.data) (hab : a ≠ b)
    (honly : OnlyDeltas ds a b w.store) (ht : Tracked ds b me w.store l) :
    wpR E (DeleteWrite ds b) me (delete ⟨ds.bucket, ds.deltaKey a⟩) (Cleaned ds a b me) w l := by
  obtain ⟨hr, hd, hs, -⟩ := deltaKey_facts hP a
  have hab' : (⟨ds.bucket, ds.deltaKey a⟩ : ObjectKey) ≠ ⟨ds.bucket, ds.deltaKey b⟩ := fun e =>
    hab (ds.deltaKey_inj.1 (congrArg ObjectKey.key e))
  have hpar : parentKey (ds.deltaKey a) = ds.keyPrefix := by
    unfold DeltaSpace.deltaKey; rw [if_pos hP, String.append_assoc]
    exact parentKey_append _ _ (by simpa using ha)
  have hgone : Stable (DeleteWrite ds b) fun s => s.lookup ⟨ds.bucket, ds.referenceKey⟩ = none :=
    stable_deleteWrite (R := (· = none)) rfl
  unfold delete
  refine wpR_call_env (fun w₀ l₀ oh he₀ hoh => ?_) fun _ _ _ => trivial
  split
  rotate_left
  · exact fun _ _ _ => trivial
  simp only [hr, hd, Bool.false_eq_true, if_false, if_true]
  unfold deleteDelta
  refine wpR_call_env (fun w₁ l₁ _ he₁ _ => ?_) fun _ _ _ => trivial
  dsimp only
  rw [ds.parentKey_deltaKey ha hs, hpar]
  simp only [hs, Bool.not_true, Bool.false_eq_true, if_false]
  -- the state at the listing, after its own deletion
  have h₁ : OnlyDeltas ds a b w₁.store ∧ Tracked ds b me w₁.store l₁ :=
    ⟨stable_onlyDeltas.env he₁ (stable_onlyDeltas.env he₀ honly : OnlyDeltas ds a b w₀.store),
      Tracked.env he₁ (Tracked.read rfl (Tracked.env he₀ ht))⟩
  refine wpR_pure_bind (wpR_call_env (fun w₂ l₂ objs he₂ hobjs => ?_) fun _ _ _ => trivial)
  obtain rfl := Except.ok.inj hobjs
  have ho₂ : OnlyDeltas ds a b w₂.store := stable_onlyDeltas.env he₂ (h₁.1.erase _)
  have ht₂ : Tracked ds b me w₂.store l₂ := Tracked.env he₂ (h₁.2.own hab')
  have hmem : (me, (⟨ds.bucket, ds.deltaKey a⟩ : ObjectKey), (none : Option StoredObject)) ∈ l₂ :=
    he₂.log_prefix.subset (List.mem_append_right _ (List.mem_singleton_self _))
  by_cases hb₂ : w₂.store.lookup ⟨ds.bucket, ds.deltaKey b⟩ = none
  · -- neither delta is left: the reference goes
    rw [if_pos ((remaining_isEmpty_iff hP hab ho₂).2 hb₂)]
    refine wpR_call_env (fun w₃ l₃ oh he₃ hoh => ?_) fun _ _ _ => trivial
    obtain rfl := Except.ok.inj hoh
    split
    · refine wpR_call_env (fun w₄ l₄ _ he₄ _ => ?_) fun _ _ _ => trivial
      refine wpR_mono (fun r _ _ h => ?_) (wpR_of_writes (?_ : Writes (fun _ _ => False) _) hgone
        (fun _ _ _ h => h.elim) (AList.lookup_erase _ _))
      · cases r
        exacts [trivial, .inl h]
      · repeat' first
          | exact .pure _
          | exact .perform_none rfl
          | refine .bind ?_ fun _ => ?_
          | refine .tryCatch ?_ fun _ => ?_
    · rename_i hnone
      have h₃ : w₃.store.lookup ⟨ds.bucket, ds.referenceKey⟩ = none := by simpa using hnone
      exact fun _ _ he => .inl (hgone.env he h₃)
  · -- the other delta is still there: this listing came before its deletion
    rw [if_neg (mt (remaining_isEmpty_iff hP hab ho₂).1 hb₂)]
    exact fun _ _ he => .inr ⟨l₂, (List.prefix_append _ _).trans he.log_prefix, hmem,
      fun h => hb₂ (ht₂.2 h)⟩

end View

/-- Two deletes of the last two deltas of a deltaspace with a non-empty prefix, for names without
`/`, their calls interleaved in any order, from a store where both deltas exist and no other key
of the bucket under the prefix ends in `.delta`. Once both have returned normally, the
deltaspace's reference is gone. -/
theorem delete_race_cleans_reference (ds : DeltaSpace) (hP : ds.keyPrefix ≠ "") {a b : String}
    (ha : '/' ∉ a.data) (hb : '/' ∉ b.data) (hab : a ≠ b) {s : Store}
    (hsa : s.lookup ⟨ds.bucket, ds.deltaKey a⟩ ≠ none)
    (hsb : s.lookup ⟨ds.bucket, ds.deltaKey b⟩ ≠ none) (honly : OnlyDeltas ds a b s)
    (w₁ w₂ : World) {d : Duo DeleteResult DeleteResult}
    (h : Relation.ReflTransGen (Duo.Step E) ⟨s, [], delete ⟨ds.bucket, ds.deltaKey a⟩, w₁,
      delete ⟨ds.bucket, ds.deltaKey b⟩, w₂⟩ d)
    {r₁ r₂ : DeleteResult} (h₁ : d.p₁.outcome = some (.ok r₁)) (h₂ : d.p₂.outcome = some (.ok r₂)) :
    d.store.lookup ⟨ds.bucket, ds.referenceKey⟩ = none := by
  have honly' : OnlyDeltas ds b a s := fun key o ho hk hs he => (honly key o ho hk hs he).symm
  obtain ⟨c₁, c₂⟩ := Duo.star_wpR h
    ⟨(writes_delete_deltaKey ha).guar, (writes_delete_deltaKey hb).guar,
      wpR_delete_pair hP ha hab honly ⟨fun e => absurd e hsb, nofun⟩,
      wpR_delete_pair hP hb (Ne.symm hab) honly' ⟨fun e => absurd e hsa, nofun⟩⟩ h₁ h₂
  rcases c₁ with hr | ⟨l₁, hl₁, ha₁, hb₁⟩
  · exact hr
  rcases c₂ with hr | ⟨l₂, hl₂, hb₂, ha₂⟩
  · exact hr
  -- each listing came before the other's deletion: the two prefixes of the log exclude each other
  rcases List.prefix_or_prefix_of_prefix hl₁ hl₂ with hp | hp
  · exact absurd (hp.subset ha₁) ha₂
  · exact absurd (hp.subset hb₂) hb₁

def deletePairStart : Duo DeleteResult DeleteResult :=
  ⟨exactTwoWorld.store, [], delete ⟨"b", "x/a.zip.delta"⟩, World.empty,
    delete ⟨"b", "x/b.zip.delta"⟩, World.empty⟩

def deletePair : Duo DeleteResult DeleteResult :=
  Duo.schedule exactEngine ([true, true, false, false] ++ List.replicate 10 true ++
    List.replicate 10 false) deletePairStart

theorem delete_race_cleans_reference_sample :
    exactTwoWorld.store.lookup ⟨"b", "x/a.zip.delta"⟩ ≠ none ∧
    exactTwoWorld.store.lookup ⟨"b", "x/b.zip.delta"⟩ ≠ none ∧
    OnlyDeltas ⟨"b", "x"⟩ "a.zip" "b.zip" exactTwoWorld.store ∧
    Relation.ReflTransGen (Duo.Step exactEngine) deletePairStart deletePair ∧
    (∃ r₁ r₂, deletePair.p₁.outcome = some (.ok r₁) ∧ deletePair.p₂.outcome = some (.ok r₂)) ∧
    deletePair.store.lookup ⟨"b", "x/reference.bin"⟩ = none :=
  have hall : ∀ key ∈ exactTwoWorld.store.keys, key.bucket = "b" →
      startswith key.key "x" = true → endswith key.key ".delta" = true →
      key.key = DeltaSpace.deltaKey ⟨"b", "x"⟩ "a.zip" ∨
        key.key = DeltaSpace.deltaKey ⟨"b", "x"⟩ "b.zip" := by decide
  have honly : OnlyDeltas ⟨"b", "x"⟩ "a.zip" "b.zip" exactTwoWorld.store := fun key o ho =>
    hall key (AList.mem_keys.2 (AList.lookup_isSome.1 (by rw [ho]; rfl)))
  ⟨by decide, by decide, honly, Duo.star_schedule _ _, ⟨_, _, rfl, rfl⟩,
    delete_race_cleans_reference ⟨"b", "x"⟩ (by decide) (by decide) (by decide) (by decide)
      (by decide) (by decide) honly World.empty World.empty (Duo.star_schedule _ _) rfl rfl⟩

end DeltaService

end DeltaGlider
