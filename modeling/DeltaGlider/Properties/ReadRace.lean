import DeltaGlider.Properties.Refinement

/-! # Readers racing writers

`get` heads a key and reads the object again later, so it may read a newer version than it
headed; `verify` heads the key a second time after its `get`. -/

namespace DeltaGlider

namespace DeltaService

variable (svc : DeltaService) {E : Engine}

def Hashed (S : String → Prop) (o : StoredObject) : Prop :=
  ∃ x, resolveMetadata o.metadata "file_sha256" = some x ∧ x ≠ "" ∧ S x

def HashedWrite (S : String → Prop) (K k : ObjectKey) (v : Option StoredObject) : Prop :=
  k = K → ∀ o, v = some o → Hashed S o

/-- A `get` to the local path `q` that returned normally left there bytes that `R` allows. -/
def Wrote (q : LocalPath) (R : Bytes → Prop) : Except Error Unit → World → Log → Prop
  | .ok _, w, _ => ∃ d, w.files.lookup q = some d ∧ R d
  | .error _, _, _ => True

def HashOf (E : Engine) (G : Bytes → Prop) (x : String) : Prop := ∃ g, G g ∧ E.sha256 g = x

section Reader

variable {S : String → Prop} {k : ObjectKey} {me : Bool} {w : World} {l : Log} {q : LocalPath}
  {Q : ObjectKey → Option StoredObject → Prop} {R : Bytes → Prop}

theorem Wrote.mono {R' : Bytes → Prop} (h : ∀ d, R d → R' d) (r : Except Error Unit) (w : World)
    (l : Log) (hw : Wrote q R r w l) : Wrote q R' r w l := by
  cases r with
  | error => trivial
  | ok => obtain ⟨d, hd, hR⟩ := hw; exact ⟨d, hd, h d hR⟩

theorem stable_hashed : Stable (HashedWrite S k) fun s => ∀ o, s.lookup k = some o → Hashed S o :=
  stable_lookup fun _ _ hq hk o ho => hq hk o ho

theorem wpR_emit_path {d : Bytes} (hd : R d) : wpR E Q me (emit (.path q) d) (Wrote q R) w l :=
  wpR_perform fun _ _ _ _ _ he' => ⟨d, by rw [he'.eq_files]; exact AList.lookup_insert _, hd⟩

theorem wpR_getDirect_race {hd : ObjectHead} {x : String}
    (hx : resolveMetadata hd.metadata "file_sha256" = some x) (hne : x ≠ "") :
    wpR E Q me (getDirect k hd (.path q)) (Wrote q fun d => E.sha256 d = x) w l := by
  unfold getDirect emit
  refine wpR_call_env (fun _ _ z _ _ => ?_) fun _ _ _ => trivial
  refine wpR_call_env (fun w₁ _ _ _ _ => ?_) fun _ _ _ => trivial
  simp only [hx, ne_eq, hne, not_false_eq_true, if_true]
  refine wpR_call_env (fun w₂ _ d he₂ hd => ?_) fun _ _ _ => trivial
  -- the file read back is the one just written
  have hz : w₂.files.lookup q = some z := by
    rw [he₂.eq_files]; exact AList.lookup_insert _
  obtain rfl : z = d := Option.some_inj.1 (hz.symm.trans (Call.interp_readFile_ok hd))
  refine wpR_call_env (fun w₃ _ a he₃ ha => ?_) fun _ _ _ => trivial
  obtain rfl : E.sha256 z = a := Except.ok.inj ha
  split
  · exact fun _ _ _ => trivial
  · rename_i hs
    have h₃ : w₃.files.lookup q = some z := by
      rw [he₃.eq_files]; show (Call.interp E (.readFile q) w₂).2.files.lookup q = _
      simp only [Call.interp, hz]
    exact fun _ _ he => ⟨z, by rw [he.eq_files]; exact h₃, not_not.1 hs⟩

theorem wpR_sizeCheck {p : Prog Unit} (x : Except Error Int) (hp : wpR E Q me p (Wrote q R) w l) :
    wpR E Q me (p >>= fun _ => Prog.ofExcept x >>= fun _ => pure ()) (Wrote q R) w l := by
  refine wpR_bind (wpR_mono ?_ hp)
  rintro (_ | _) w₁ _ h₁
  · trivial
  cases x with
  | error => exact fun _ _ _ => trivial
  | ok =>
    obtain ⟨d, hd, hR⟩ := h₁
    exact fun _ _ he => ⟨d, by rw [he.eq_files]; exact hd, hR⟩

theorem wpR_withTemp_path {body : Nat → Prog Unit} (hq : q.Before w.nextTemp)
    (hb : ∀ t w₀ l₀, wpR E Q me (body t) (Wrote q R) w₀ l₀) :
    wpR E Q me (withTemp body) (Wrote q R) w l := by
  unfold withTemp
  refine wpR_call_env (fun w₀ _ t he ht => wpR_tryFinally (wpR_mono ?_ (hb t _ _)))
    fun _ _ _ => trivial
  rintro (_ | _) w₁ _ h₁
  · exact wpR_of_forall fun r _ _ => by cases r <;> trivial
  · obtain ⟨d, hd, hR⟩ := h₁
    -- the directory is the first one numbered from where the run began
    have hqt : q.Before t := by
      obtain rfl : w₀.nextTemp = t := Except.ok.inj ht
      exact he.keep (A := fun w => q.Before w.nextTemp) (fun _ _ h => h) hq
    refine wpR_perform fun w₂ _ he₂ _ _ he' => ⟨d, ?_, hR⟩
    rw [he'.eq_files]
    show (removeScratch w₂.files t).lookup _ = _
    rw [lookup_removeScratch_of_before _ hqt, he₂.eq_files]
    exact hd

/-- `get` to a path outside the temp directories still to come, racing writes that keep every
version of the key `Hashed S`: it returns normally only with bytes whose SHA `S` allows. -/
theorem wpR_get_race (h : ∀ o, w.store.lookup k = some o → Hashed S o) (hq : q.Before w.nextTemp) :
    wpR E (HashedWrite S k) me (get k (.path q)) (Wrote q fun d => S (E.sha256 d)) w l := by
  unfold get
  refine wpR_call_env (fun w₀ _ oh he hoh => ?_) fun _ _ _ => trivial
  obtain rfl : (w₀.store.lookup k).map (·.head k) = oh := Except.ok.inj hoh
  have hq₀ : q.Before w₀.nextTemp := he.keep (A := fun w => q.Before w.nextTemp) (fun _ _ h => h) hq
  rcases ho : w₀.store.lookup k with _ | o
  · exact fun _ _ _ => trivial
  obtain ⟨x, hx, hne, hS⟩ := stable_hashed.env he h o ho
  have hS' : ∀ d, E.sha256 d = x → S (E.sha256 d) := fun _ e => e ▸ hS
  have hdirect : ∀ l', wpR E (HashedWrite S k) me (getDirect k (o.head k) (.path q))
      (Wrote q fun d => S (E.sha256 d)) (Call.interp E (.head k) w₀).2 l' := fun _ =>
    wpR_mono (Wrote.mono hS') (wpR_getDirect_race (by rwa [StoredObject.head_metadata]) hne)
  simp only [Option.map_some', StoredObject.head_metadata]
  split
  · exact hdirect _
  split
  · exact wpR_sizeCheck _ (hdirect _)
  -- the delta branch checks the decoded bytes against the head's `file_sha256`
  rcases hm : DeltaMeta.fromDict o.metadata with e | m
  · exact fun _ _ _ => trivial
  have hmx : m.fileSha256 = x := Option.some_inj.1 ((fromDict_eq_ok hm).1.symm.trans hx)
  refine wpR_pure_bind (wpR_bind_frame (A := fun w => q.Before w.nextTemp)
    (fun _ _ h => h.mono (Call.interp_nextTemp_le _ _)) (fun _ _ h => h) hq₀
    (fun _ _ _ h => wpR_withTemp_path h fun _ _ _ => ?_) fun _ _ _ => trivial)
  refine wpR_call_env (fun _ _ _ _ _ => ?_) fun _ _ _ => trivial
  refine wpR_call_env (fun _ _ _ _ _ => ?_) fun _ _ _ => trivial
  refine wpR_rethrow_env (fun _ _ t _ _ => ?_) fun _ _ _ => trivial
  refine wpR_call_env (fun _ _ a _ ha => ?_) fun _ _ _ => trivial
  obtain rfl : E.sha256 t = a := Except.ok.inj ha
  split
  · exact fun _ _ _ => trivial
  · rename_i hs
    exact wpR_emit_path (hS' t (hmx ▸ not_not.1 hs))

theorem wpR_withTemp_result {α : Type} {Φ : α → Prop} {body : Nat → Prog α}
    (hb : ∀ w₀ l₀, Env Q me (w, l) (w₀, l₀) → wpR E Q me (body w₀.nextTemp)
      (OnOk fun a _ _ => Φ a) (Call.interp E .mkTemp w₀).2 (l₀ ++ Call.logged .mkTemp me)) :
    wpR E Q me (withTemp body) (OnOk fun a _ _ => Φ a) w l := by
  unfold withTemp
  refine wpR_call_env (fun w₀ l₀ t he ht => ?_) fun _ _ _ => trivial
  obtain rfl : w₀.nextTemp = t := Except.ok.inj ht
  refine wpR_tryFinally (wpR_mono ?_ (hb w₀ l₀ he))
  rintro (_ | _) _ _ h₁
  · exact wpR_of_forall fun r _ _ => by cases r <;> trivial
  · exact wpR_of_forall fun r _ _ => by cases r; exacts [trivial, h₁]

theorem wpR_verify_race (h : ∀ o, w.store.lookup k = some o → Hashed (fun _ => True) o) :
    wpR E (fun k' _ => k' ≠ k) me (verify k) (OnOk fun res _ _ => res.valid = true) w l := by
  have hA : Stable (fun k' (_ : Option StoredObject) => k' ≠ k) fun s =>
      s.lookup k = w.store.lookup k :=
    stable_lookup (R := fun v => v = w.store.lookup k) fun _ _ hq hk => absurd hk hq
  unfold verify
  refine wpR_withTemp_result fun w₀ l₀ he => ?_
  have h₀ : (Call.interp E .mkTemp w₀).2.store.lookup k = w.store.lookup k := hA.env he rfl
  have hkeep : wpR E (fun k' _ => k' ≠ k) me (get k (.path (.scratch w₀.nextTemp "output")))
      (fun _ w' _ => w'.store.lookup k = w.store.lookup k) (Call.interp E .mkTemp w₀).2
      (l₀ ++ Call.logged .mkTemp me) :=
    wpR_of_writes (writes_get (P := fun _ _ => False) _ _) hA (fun _ _ _ h => h.elim) h₀
  rcases hV : w.store.lookup k with _ | o
  · -- nothing at the key: the second head raises
    refine wpR_bind (wpR_mono ?_ hkeep)
    rintro (_ | ⟨⟩) _ _ hs₁
    · trivial
    refine wpR_call_env (fun w₂ _ oh he₂ hoh => ?_) fun _ _ _ => trivial
    obtain rfl : (w₂.store.lookup k).map (·.head k) = oh := Except.ok.inj hoh
    rw [(hA.env he₂ hs₁).trans hV]
    exact fun _ _ _ => trivial
  obtain ⟨x, hx, hne, -⟩ := h o hV
  have hget : wpR E (fun k' _ => k' ≠ k) me (get k (.path (.scratch w₀.nextTemp "output")))
      (Wrote (.scratch w₀.nextTemp "output") fun d => E.sha256 d = x) (Call.interp E .mkTemp w₀).2
      (l₀ ++ Call.logged .mkTemp me) :=
    wpR.of_rely (Q := HashedWrite (· = x) k) (fun _ _ hk' e => absurd e hk')
      (wpR_get_race (fun o' ho' => by
        obtain rfl : o = o' := Option.some_inj.1 ((hV.symm.trans h₀.symm).trans ho')
        exact ⟨x, hx, hne, rfl⟩) (Nat.lt_succ_self _))
  refine wpR_bind (wpR_mono ?_ (wpR_and hget hkeep))
  rintro (_ | ⟨⟩) _ _ ⟨hw, hs₁⟩
  · trivial
  obtain ⟨d, hd, hsd⟩ := hw
  -- the second head reads the object `get` checked against
  refine wpR_call_env (fun w₂ _ oh he₂ hoh => ?_) fun _ _ _ => trivial
  obtain rfl : (w₂.store.lookup k).map (·.head k) = oh := Except.ok.inj hoh
  rw [(hA.env he₂ hs₁).trans hV]
  simp only [Option.map_some', StoredObject.head_metadata]
  rcases hm : DeltaMeta.fromDict o.metadata with e | m
  · exact fun _ _ _ => trivial
  have hmx : m.fileSha256 = x := Option.some_inj.1 ((fromDict_eq_ok hm).1.symm.trans hx)
  refine wpR_pure_bind (wpR_call_env (fun w₃ _ d' he₃ hd' => ?_) fun _ _ _ => trivial)
  have hd₃ : w₃.files.lookup (.scratch w₀.nextTemp "output") = some d := by
    rw [he₃.eq_files]; show w₂.files.lookup _ = _; rw [he₂.eq_files]; exact hd
  obtain rfl : d = d' := Option.some_inj.1 (hd₃.symm.trans (Call.interp_readFile_ok hd'))
  refine wpR_call_env (fun _ _ a _ ha => ?_) fun _ _ _ => trivial
  obtain rfl : E.sha256 d = a := Except.ok.inj ha
  exact fun _ _ _ => decide_eq_true (hsd.trans hmx.symm)

end Reader

theorem guar_put_fileSha (f : LocalFile) (ds : DeltaSpace) (o : Option String) :
    Guar E (fun _ v => ∀ x, v = some x →
      resolveMetadata x.metadata "file_sha256" = some (E.sha256 f.data)) (svc.put f ds o) := by
  unfold put
  refine .call (fun _ _ h => by cases h) fun _ => ?_
  simp only [Call.interp]
  split
  · exact ((writes_uploadDirect svc f ds _ _ _).mono fun _ _ h x hx => (h.2 x hx).2.1).guar
  · refine .call (fun _ _ h => by cases h) fun _ => ?_
    simp only [Call.interp, Prog.bind]
    split
    · exact (writes_createReference_fileSha svc f ds _ _ _).guar
    · exact (writes_createDelta_fileSha svc f ds _ _ _ _).guar

theorem guar_put_hashed {G : Bytes → Prop} {f : LocalFile} (hf : G f.data)
    (hne : E.sha256 f.data ≠ "") (ds : DeltaSpace) (o : Option String) (k : ObjectKey) :
    Guar E (HashedWrite (HashOf E G) k) (svc.put f ds o) :=
  (guar_put_fileSha svc f ds o).mono fun _ _ h _ x hx => ⟨_, h x hx, hne, f.data, hf, rfl⟩

/-- A `get` of a key to a user file, its calls interleaved in any order with those of another
client, from a store where the key holds nothing or an object that records the non-empty SHA of
one of the files `G`, while the other client writes the key only as such objects or deletes it.
With a collision-free hasher, once the `get` has returned normally, whatever the other client is
doing, the user file holds one of the files `G`. -/
theorem get_race_reads_version (hinj : Function.Injective E.sha256) {G : Bytes → Prop}
    {k : ObjectKey} {s : Store} (hs : ∀ o, s.lookup k = some o → Hashed (HashOf E G) o) {β : Type}
    {p₂ : Prog β} (hg : Guar E (HashedWrite (HashOf E G) k) p₂) (name : String) (w₁ w₂ : World)
    {d : Duo Unit β}
    (h : Relation.ReflTransGen (Duo.Step E) ⟨s, [], get k (.path (.user name)), w₁, p₂, w₂⟩ d)
    (hr : d.p₁.outcome = some (.ok ())) : ∃ x, d.w₁.files.lookup (.user name) = some x ∧ G x := by
  obtain ⟨x, hx, g, hg, he⟩ := Duo.star_wpR_left h
    ⟨(writes_get (P := fun _ _ => False) k _).guar, hg, wpR_get_race hs trivial,
      wpR_of_forall (P := fun (_ : Except Error β) _ _ => True) fun _ _ _ => trivial⟩ hr
  exact ⟨x, hx, hinj he ▸ hg⟩

theorem outcome_eq_ok {α : Type} {r : Option (Except Error α)} {a : α}
    (h : r.map Except.toOption = some (some a)) : r = some (.ok a) := by
  rcases r with _ | _ | a'
  · exact nomatch h
  · exact nomatch h
  · cases h; rfl

def versionRaceStart : Duo Unit PutSummary :=
  ⟨exactOneWorld.store, [], get ⟨"b", "x/a.zip.delta"⟩ (.path (.user "a.zip")), World.empty,
    sample.put ⟨"a.zip", [4, 5]⟩ ⟨"b", "x"⟩ none, World.empty⟩

def versionRace : Duo Unit PutSummary :=
  Duo.schedule exactEngine ([true] ++ List.replicate 4 false ++ List.replicate 20 true ++
    List.replicate 20 false) versionRaceStart

theorem get_race_reads_version_sample :
    (∀ o, exactOneWorld.store.lookup ⟨"b", "x/a.zip.delta"⟩ = some o →
      Hashed (HashOf exactEngine fun g => g = [1, 2, 3] ∨ g = [4, 5]) o) ∧
    Guar exactEngine (HashedWrite (HashOf exactEngine fun g => g = [1, 2, 3] ∨ g = [4, 5])
      ⟨"b", "x/a.zip.delta"⟩) (sample.put ⟨"a.zip", [4, 5]⟩ ⟨"b", "x"⟩ none) ∧
    Relation.ReflTransGen (Duo.Step exactEngine) versionRaceStart versionRace ∧
    versionRace.p₁.outcome = some (.ok ()) ∧
    ∃ x, versionRace.w₁.files.lookup (.user "a.zip") = some x ∧ (x = [1, 2, 3] ∨ x = [4, 5]) :=
  have hs : ∀ o, exactOneWorld.store.lookup ⟨"b", "x/a.zip.delta"⟩ = some o →
      Hashed (HashOf exactEngine fun g => g = [1, 2, 3] ∨ g = [4, 5]) o := fun o ho => by
    obtain rfl := Option.some_inj.1 ((show exactOneWorld.store.lookup ⟨"b", "x/a.zip.delta"⟩ = some _
      from rfl).symm.trans ho)
    exact ⟨_, by decide, by decide, [1, 2, 3], .inl rfl, rfl⟩
  have hg := guar_put_hashed sample (E := exactEngine) (G := fun g => g = [1, 2, 3] ∨ g = [4, 5])
    (.inr rfl) (by decide) ⟨"b", "x"⟩ none ⟨"b", "x/a.zip.delta"⟩
  have hr : versionRace.p₁.outcome = some (.ok ()) := outcome_eq_ok (by decide!)
  ⟨hs, hg, Duo.star_schedule _ _, hr, get_race_reads_version byteHash_injective hs hg "a.zip"
    World.empty World.empty (Duo.star_schedule _ _) hr⟩

def reverseEngine : Engine := ⟨fun _ t => some t.reverse, fun _ d => some d.reverse, byteHash⟩

def foreignRaceStart : Duo Unit PutSummary :=
  ⟨(∅ : Store).insert ⟨"b", "x/a.zip.delta"⟩ ⟨[7], []⟩, [],
    get ⟨"b", "x/a.zip.delta"⟩ (.path (.user "a.zip")), World.empty,
    sample.put ⟨"a.zip", [1, 2, 3]⟩ ⟨"b", "x"⟩ none, World.empty⟩

def foreignRace : Duo Unit PutSummary :=
  Duo.schedule reverseEngine ([true] ++ List.replicate 20 false ++ List.replicate 20 true)
    foreignRaceStart

/-- With a foreign object at the key, the `get` picks `_get_direct` from its head, reads the
zero-delta the `put` stored there instead, finds no SHA to check in the old head and returns
normally with the delta's raw bytes `[3, 2, 1]`: the key read as `[7]` before the `put` and as
`[1, 2, 3]` after it, never as what the `get` wrote. -/
theorem get_race_foreign_object_raw_delta :
    Relation.ReflTransGen (Duo.Step reverseEngine) foreignRaceStart foreignRace ∧
    foreignRace.p₁.outcome = some (.ok ()) ∧
    foreignRace.w₁.files.lookup (.user "a.zip") = some [3, 2, 1] ∧
    view reverseEngine foreignRaceStart.store ⟨"b", "x/a.zip.delta"⟩ = some [7] ∧
    view reverseEngine foreignRace.store ⟨"b", "x/a.zip.delta"⟩ = some [1, 2, 3] :=
  ⟨Duo.star_schedule _ _, rfl, rfl, by decide, by decide!⟩

/-- `verify` of a key, its calls interleaved in any order with those of another client that never
writes that key, from a store where the key holds nothing or an object recording a non-empty SHA:
once `verify` has returned normally, whatever the other client is doing, it reports the file
valid. -/
theorem verify_race_reports_valid {k : ObjectKey} {s : Store}
    (hs : ∀ o, s.lookup k = some o → Hashed (fun _ => True) o) {β : Type} {p₂ : Prog β}
    (hg : Guar E (fun k' _ => k' ≠ k) p₂) (w₁ w₂ : World) {d : Duo VerifyResult β}
    (h : Relation.ReflTransGen (Duo.Step E) ⟨s, [], verify k, w₁, p₂, w₂⟩ d) {res : VerifyResult}
    (hr : d.p₁.outcome = some (.ok res)) : res.valid = true :=
  Duo.star_wpR_left h ⟨(writes_verify (P := fun _ _ => False) k).guar, hg, wpR_verify_race hs,
    wpR_of_forall (P := fun (_ : Except Error β) _ _ => True) fun _ _ _ => trivial⟩ hr

def verifyRaceStart : Duo VerifyResult PutSummary :=
  ⟨exactTwoWorld.store, [], verify ⟨"b", "x/b.zip.delta"⟩, World.empty,
    sample.put ⟨"c.zip", [5]⟩ ⟨"b", "x"⟩ none, World.empty⟩

def verifyRace : Duo VerifyResult PutSummary :=
  Duo.schedule exactEngine ([true, true, true] ++ List.replicate 5 false ++
    List.replicate 30 true ++ List.replicate 30 false) verifyRaceStart

theorem verify_race_reports_valid_sample :
    (∀ o, exactTwoWorld.store.lookup ⟨"b", "x/b.zip.delta"⟩ = some o → Hashed (fun _ => True) o) ∧
    Guar exactEngine (fun k' _ => k' ≠ ⟨"b", "x/b.zip.delta"⟩)
      (sample.put ⟨"c.zip", [5]⟩ ⟨"b", "x"⟩ none) ∧
    Relation.ReflTransGen (Duo.Step exactEngine) verifyRaceStart verifyRace ∧
    verifyRace.p₁.outcome =
      some (.ok ⟨true, byteHash [1, 2], byteHash [1, 2], "Integrity verified"⟩) ∧
    VerifyResult.valid ⟨true, byteHash [1, 2], byteHash [1, 2], "Integrity verified"⟩ = true :=
  have hs : ∀ o, exactTwoWorld.store.lookup ⟨"b", "x/b.zip.delta"⟩ = some o →
      Hashed (fun _ => True) o := fun o ho => by
    obtain rfl := Option.some_inj.1 (exactTwoWorld_lookup_delta.symm.trans ho)
    exact ⟨byteHash [1, 2], by decide, by decide, trivial⟩
  have hg : Guar exactEngine (fun k' _ => k' ≠ ⟨"b", "x/b.zip.delta"⟩)
      (sample.put ⟨"c.zip", [5]⟩ ⟨"b", "x"⟩ none) :=
    (guar_put sample ⟨"c.zip", [5]⟩ ⟨"b", "x"⟩ none rfl).mono fun _ _ hw e => by
      subst e
      rcases hw.2 with ⟨he, -⟩ | he <;> exact absurd (congrArg ObjectKey.key he) (by decide)
  have hr : verifyRace.p₁.outcome =
      some (.ok ⟨true, byteHash [1, 2], byteHash [1, 2], "Integrity verified"⟩) :=
    outcome_eq_ok (by decide!)
  ⟨hs, hg, Duo.star_schedule _ _, hr, verify_race_reports_valid hs hg World.empty World.empty
    (Duo.star_schedule _ _) hr⟩

def alarmRaceStart : Duo VerifyResult PutSummary :=
  ⟨exactOneWorld.store, [], verify ⟨"b", "x/a.zip.delta"⟩, World.empty,
    sample.put ⟨"a.zip", [4, 5]⟩ ⟨"b", "x"⟩ none, World.empty⟩

def alarmRace : Duo VerifyResult PutSummary :=
  Duo.schedule exactEngine (List.replicate 12 true ++ List.replicate 40 false ++
    List.replicate 40 true) alarmRaceStart

/-- When the other client writes the key, `verify` compares the bytes its `get` checked against
the first version with the SHA the second version records, and reports a failed integrity check
although the key read as the first file before the `put` and as the second after it. -/
theorem verify_race_false_alarm :
    Relation.ReflTransGen (Duo.Step exactEngine) alarmRaceStart alarmRace ∧
    alarmRace.p₁.outcome =
      some (.ok ⟨false, byteHash [4, 5], byteHash [1, 2, 3], "Integrity check failed"⟩) ∧
    view exactEngine alarmRaceStart.store ⟨"b", "x/a.zip.delta"⟩ = some [1, 2, 3] ∧
    view exactEngine alarmRace.store ⟨"b", "x/a.zip.delta"⟩ = some [4, 5] :=
  ⟨Duo.star_schedule _ _, outcome_eq_ok (by decide!), by decide!, by decide!⟩

end DeltaService

end DeltaGlider
