import DeltaGlider.Properties.Refinement

/-! # The service as a store of files

Every command a safely reachable store serves takes effect on the view as an operation on a store
of files, or leaves it unchanged. -/

namespace DeltaGlider

namespace DeltaService

inductive Command
  | put (f : LocalFile) (ds : DeltaSpace) (originalName : Option String)
  | get (k : ObjectKey) (out : Sink)
  | verify (k : ObjectKey)
  | delete (k : ObjectKey)
  | deleteRecursive (bucket keyPrefix : String)
  | rehydrateForDownload (bucket key : String) (expiresInSeconds : Int)
  | purgeTempFiles (bucket : String)

theorem exists_ok_of_isOk {α : Type} {r : Except Error α} (h : r.isOk = true) : ∃ a, r = .ok a := by
  cases r
  exacts [(nomatch h), ⟨_, rfl⟩]

namespace Command

variable (svc : DeltaService)

def Safe : Command → Prop
  | put f ds o => ¬IsReferenceKey (svc.putKey ds (originalNameOf f o))
  | delete k => ¬IsReferenceKey k.key
  | rehydrateForDownload _ key _ => ¬IsReferenceKey key
  | _ => True

instance (c : Command) : Decidable (c.Safe svc) :=
  match c with
  | put f ds o => inferInstanceAs (Decidable ¬IsReferenceKey (svc.putKey ds (originalNameOf f o)))
  | delete k => inferInstanceAs (Decidable ¬IsReferenceKey k.key)
  | rehydrateForDownload _ key _ => inferInstanceAs (Decidable ¬IsReferenceKey key)
  | get .. | verify _ | deleteRecursive .. | purgeTempFiles _ => isTrue trivial

def Serve (E : Engine) : Command → World → Bool → World → Prop
  | put f ds o, w, ok, w' => ∃ r, Exec E (svc.put f ds o) w r w' ∧ r.isOk = ok
  | get k out, w, ok, w' => ∃ r, Exec E (DeltaService.get k out) w r w' ∧ r.isOk = ok
  | verify k, w, ok, w' => ∃ r, Exec E (DeltaService.verify k) w r w' ∧ r.isOk = ok
  | delete k, w, ok, w' => ∃ r, Exec E (DeltaService.delete k) w r w' ∧ r.isOk = ok
  | deleteRecursive b p, w, ok, w' =>
    ∃ r, run E (DeltaService.deleteRecursive b p) w = (r, w') ∧ r.isOk = ok
  | rehydrateForDownload b key e, w, ok, w' =>
    ∃ r, Exec E (svc.rehydrateForDownload b key e) w r w' ∧ r.isOk = ok
  | purgeTempFiles b, w, ok, w' => ∃ r, Exec E (svc.purgeTempFiles b) w r w' ∧ r.isOk = ok

/-- A command's effect on a store of files: `put` stores the file under the key it assigns,
`delete` removes a key and `delete_recursive` every key of the bucket under the prefix, a
rehydration leaves a plain file alone or copies a file to a fresh key under the temp prefix, the
purge removes temp keys of its bucket, and reads change nothing. -/
def Effect : Command → Contents → Contents → Prop
  | put f ds o, V, V' =>
    V' = Function.update V ⟨ds.bucket, svc.putKey ds (originalNameOf f o)⟩ (some f.data)
  | get .., V, V' | verify _, V, V' => V' = V
  | delete k, V, V' => V' = Function.update V k none
  | deleteRecursive b p, V, V' =>
    V' = fun k => if k.bucket = b ∧ startswith k.key (normalizePrefix p) = true then none else V k
  | rehydrateForDownload b key _, V, V' =>
    V' = V ∨ ∃ key' tk d, (key' = key ∨ key' = key ++ ".delta") ∧
      startswith tk ".deltaglider/tmp/" = true ∧ V ⟨b, key'⟩ = some d ∧
      V' = Function.update V ⟨b, tk⟩ (some d)
  | purgeTempFiles b, V, V' => ∀ k, V' k = V k ∨
    (V' k = none ∧ k.bucket = b ∧ startswith k.key ".deltaglider/tmp/" = true)

def Touches : Command → ObjectKey → Prop
  | put f ds o, k => k = ⟨ds.bucket, svc.putKey ds (originalNameOf f o)⟩
  | get .., _ | verify _, _ => False
  | delete k', k => k = k'
  | deleteRecursive b p, k => k.bucket = b ∧ startswith k.key (normalizePrefix p) = true
  | rehydrateForDownload b .., k | purgeTempFiles b, k =>
    k.bucket = b ∧ startswith k.key ".deltaglider/tmp/" = true

variable {svc} {c : Command} {V V' : Contents} {k : ObjectKey}

theorem Effect.eq_of_not_touches (he : c.Effect svc V V') (hk : ¬c.Touches svc k) : V' k = V k := by
  cases c with
  | put | delete => rw [he, Function.update_noteq hk]
  | get | verify => rw [he]
  | deleteRecursive b p =>
    have hk' : ¬(k.bucket = b ∧ startswith k.key (normalizePrefix p) = true) := hk
    rw [he]
    exact if_neg hk'
  | rehydrateForDownload b =>
    rcases he with rfl | ⟨_, tk, _, -, htk, -, rfl⟩
    · rfl
    · exact Function.update_noteq (fun e => hk (by subst e; exact ⟨rfl, htk⟩)) _ _
  | purgeTempFiles => exact (he k).elim id fun h => absurd h.2 hk

end Command

/-- Runs of a store of files in which each command takes effect or not, and takes effect when it
returned normally. -/
inductive Applies (svc : DeltaService) : List (Command × Bool) → Contents → Contents → Prop
  | nil (V : Contents) : Applies svc [] V V
  | cons {c : Command} {ok : Bool} {cs : List (Command × Bool)} {V V₁ V' : Contents} :
      (V₁ = V ∨ c.Effect svc V V₁) → (ok = true → c.Effect svc V V₁) → Applies svc cs V₁ V' →
      Applies svc ((c, ok) :: cs) V V'

theorem Applies.eq_of_not_touches {svc : DeltaService} {cs : List (Command × Bool)}
    {V V' : Contents} (ha : Applies svc cs V V') {k : ObjectKey}
    (hk : ∀ x ∈ cs, ¬x.1.Touches svc k) : V' k = V k := by
  induction ha with
  | nil => rfl
  | cons hV _ _ ih =>
    rw [ih fun x hx => hk x (List.mem_cons_of_mem _ hx)]
    rcases hV with rfl | he
    exacts [rfl, he.eq_of_not_touches (hk _ (List.mem_cons_self _ _))]

/-- Runs of safe commands the service serves, between which local files, the cache and the clock
may change. -/
inductive Serves (E : Engine) (svc : DeltaService) : List (Command × Bool) → World → World → Prop
  | nil (w : World) : Serves E svc [] w w
  | env {cs : List (Command × Bool)} {w w₁ w' : World} :
      w₁.store = w.store → Serves E svc cs w₁ w' → Serves E svc cs w w'
  | cons {c : Command} {ok : Bool} {cs : List (Command × Bool)} {w w₁ w' : World} :
      c.Safe svc → c.Serve svc E w ok w₁ → Serves E svc cs w₁ w' → Serves E svc ((c, ok) :: cs) w w'

variable (svc : DeltaService) {E : Engine} {w w' : World}

theorem Command.Serve.safeStep {c : Command} {ok : Bool} (hc : c.Safe svc)
    (hs : c.Serve svc E w ok w') : SafeStep E svc w w' := by
  cases c with
  | put => obtain ⟨_, hx, -⟩ := hs; exact .put hc hx
  | get => obtain ⟨_, hx, -⟩ := hs; exact .get hx
  | verify => obtain ⟨_, hx, -⟩ := hs; exact .verify hx
  | delete => obtain ⟨_, hx, -⟩ := hs; exact .delete hc hx
  | deleteRecursive b p =>
    obtain ⟨_, hr, -⟩ := hs
    rw [show w' = _ from (congrArg Prod.snd hr).symm]
    exact .deleteRecursive
  | rehydrateForDownload => obtain ⟨_, hx, -⟩ := hs; exact .rehydrateForDownload hx
  | purgeTempFiles => obtain ⟨_, hx, -⟩ := hs; exact .purgeTempFiles hx

theorem rehydrate_view (hinj : Function.Injective E.sha256)
    (hdiff : ∀ r t d, E.encode r t = some d → E.decode r d = some t) (h : SafeReachable E svc w)
    {b key : String} (hK : ¬IsReferenceKey key) {e : Int} {r : Except Error (Option String)}
    (hx : Exec E (svc.rehydrateForDownload b key e) w r w') :
    (Command.rehydrateForDownload b key e).Effect svc (view E w.store) (view E w'.store) := by
  have hs : SafeStep E svc w w' := .rehydrateForDownload hx
  rcases svc.exec_rehydrateForDownload hx with hst | ⟨key', tk, md, q, d, w₁, w₂, hst, htk, htkR, hmd,
    hkey, hs₁, hq, hget, hfile⟩
  · exact .inl (funext fun k => hs.view_eq svc h (by rw [hst]))
  -- the `get` ran from a world with the same store: it wrote what the key reads as
  have hK' : ¬IsReferenceKey key' := by
    rcases hkey with rfl | rfl
    exacts [hK, not_isReferenceKey_of_delta (endswith_append _ _)]
  obtain ⟨d', hv, hf⟩ := exec_get_view svc hinj hdiff (.env h hs₁) (k := ⟨b, key'⟩) hK' hget hq
  obtain rfl : d' = d := Option.some_inj.1 (hf.symm.trans hfile)
  refine .inr ⟨key', tk, d', hkey, htk, hs₁ ▸ hv, eq_update_of_ne
    (fun k hk => hs.view_eq svc h (by rw [hst, AList.lookup_insert_ne hk])) ?_⟩
  simp [view, htkR, hst, content_direct (o := ⟨d', md⟩) (.inl hmd)]

theorem purge_view (h : SafeReachable E svc w) {b : String} {r : Except Error PurgeResult}
    (hx : Exec E (svc.purgeTempFiles b) w r w') :
    (Command.purgeTempFiles b).Effect svc (view E w.store) (view E w'.store) := fun k =>
  ((svc.writes_purgeTempFiles_temp b).lookup hx k).imp
    (SafeStep.view_eq svc h (.purgeTempFiles hx)) fun ⟨e, hb, ht⟩ => ⟨by simp [view, e], hb, ht⟩

theorem view_of_writes_none {α : Type} {p : Prog α} (hp : Writes (fun _ _ => False) p)
    {r : Except Error α} (hx : Exec E p w r w') : view E w'.store = view E w.store := by
  rw [hp.store_eq hx]

theorem serve_view (hinj : Function.Injective E.sha256)
    (hdiff : ∀ r t d, E.encode r t = some d → E.decode r d = some t) (h : SafeReachable E svc w)
    {c : Command} (hc : c.Safe svc) {ok : Bool} (hs : c.Serve svc E w ok w') :
    (view E w'.store = view E w.store ∨ c.Effect svc (view E w.store) (view E w'.store)) ∧
      (ok = true → c.Effect svc (view E w.store) (view E w'.store)) := by
  cases c with
  | put f ds o =>
    obtain ⟨r, hx, rfl⟩ := hs
    obtain ⟨hne, hK⟩ := put_view svc hinj hdiff h f ds o hc hx
    refine ⟨eq_or_eq_update hne hK, fun hok => ?_⟩
    obtain ⟨s, rfl⟩ := exists_ok_of_isOk hok
    exact eq_update_of_ne hne (put_ok_view_key svc hinj hdiff h f ds o hc hx)
  | get k out =>
    obtain ⟨_, hx, -⟩ := hs
    have e := view_of_writes_none (writes_get (P := fun _ _ => False) k out) hx
    exact ⟨.inl e, fun _ => e⟩
  | verify k =>
    obtain ⟨_, hx, -⟩ := hs
    have e := view_of_writes_none (writes_verify (P := fun _ _ => False) k) hx
    exact ⟨.inl e, fun _ => e⟩
  | delete k =>
    obtain ⟨r, hx, rfl⟩ := hs
    obtain ⟨hv, hok⟩ := delete_view svc h hc hx
    refine ⟨hv, fun hr => ?_⟩
    obtain ⟨res, rfl⟩ := exists_ok_of_isOk hr
    exact hok res rfl
  | deleteRecursive b p =>
    obtain ⟨_, hr, -⟩ := hs
    have hv := deleteRecursive_view svc h b p
    rw [hr] at hv
    exact ⟨.inr hv, fun _ => hv⟩
  | rehydrateForDownload b key e =>
    obtain ⟨_, hx, -⟩ := hs
    have hv := rehydrate_view svc hinj hdiff h hc hx
    exact ⟨.inr hv, fun _ => hv⟩
  | purgeTempFiles b =>
    obtain ⟨_, hx, -⟩ := hs
    have hv := purge_view svc h hx
    exact ⟨.inr hv, fun _ => hv⟩

/-- In every store reached by safe operations, every safe command, in any execution, faults
included, takes effect on the view or leaves it as it was, and takes effect when it returns
normally: the view follows a store of files whose operations are atomic. -/
theorem safeReachable_serve_view (hinj : Function.Injective E.sha256)
    (hdiff : ∀ r t d, E.encode r t = some d → E.decode r d = some t) (h : SafeReachable E svc w)
    {c : Command} (hc : c.Safe svc) {ok : Bool} (hs : c.Serve svc E w ok w') :
    (view E w'.store = view E w.store ∨ c.Effect svc (view E w.store) (view E w'.store)) ∧
      (ok = true → c.Effect svc (view E w.store) (view E w'.store)) :=
  serve_view svc hinj hdiff h hc hs

theorem safeReachable_serve_view_sample :
    SafeReachable exactEngine sample exactTwoWorld ∧
    (Command.delete ⟨"b", "x/b.zip.delta"⟩).Safe sample ∧
    (Command.delete ⟨"b", "x/b.zip.delta"⟩).Serve sample exactEngine exactTwoWorld
      (run exactEngine (delete ⟨"b", "x/b.zip.delta"⟩) exactTwoWorld).1.isOk
      (run exactEngine (delete ⟨"b", "x/b.zip.delta"⟩) exactTwoWorld).2 ∧
    (view exactEngine (run exactEngine (delete ⟨"b", "x/b.zip.delta"⟩) exactTwoWorld).2.store =
        view exactEngine exactTwoWorld.store ∨
      (Command.delete ⟨"b", "x/b.zip.delta"⟩).Effect sample (view exactEngine exactTwoWorld.store)
        (view exactEngine (run exactEngine (delete ⟨"b", "x/b.zip.delta"⟩) exactTwoWorld).2.store)) ∧
    ((run exactEngine (delete ⟨"b", "x/b.zip.delta"⟩) exactTwoWorld).1.isOk = true →
      (Command.delete ⟨"b", "x/b.zip.delta"⟩).Effect sample (view exactEngine exactTwoWorld.store)
        (view exactEngine (run exactEngine (delete ⟨"b", "x/b.zip.delta"⟩) exactTwoWorld).2.store)) :=
  have hc : (Command.delete ⟨"b", "x/b.zip.delta"⟩).Safe sample := by decide
  have hs : (Command.delete ⟨"b", "x/b.zip.delta"⟩).Serve sample exactEngine exactTwoWorld
      (run exactEngine (delete ⟨"b", "x/b.zip.delta"⟩) exactTwoWorld).1.isOk
      (run exactEngine (delete ⟨"b", "x/b.zip.delta"⟩) exactTwoWorld).2 := ⟨_, exec_run _ _, rfl⟩
  ⟨exactTwoWorld_safeReachable, hc, hs, safeReachable_serve_view sample byteHash_injective
    (Engine.copy_decode_encode _) exactTwoWorld_safeReachable hc hs⟩

theorem serves_applies (hinj : Function.Injective E.sha256)
    (hdiff : ∀ r t d, E.encode r t = some d → E.decode r d = some t) (h : SafeReachable E svc w)
    {cs : List (Command × Bool)} (hr : Serves E svc cs w w') :
    SafeReachable E svc w' ∧ Applies svc cs (view E w.store) (view E w'.store) := by
  induction hr with
  | nil => exact ⟨h, .nil _⟩
  | env he _ ih =>
    obtain ⟨h', ha⟩ := ih (.env h he)
    exact ⟨h', he ▸ ha⟩
  | cons hc hs _ ih =>
    obtain ⟨hv, hok⟩ := serve_view svc hinj hdiff h hc hs
    obtain ⟨h', ha⟩ := ih (.step h (hs.safeStep svc hc))
    exact ⟨h', .cons hv hok ha⟩

/-- In every store reached by safe operations, every run of safe commands the service serves,
faults included, with local files, the cache and the clock changing between commands, ends in a
store reached by safe operations, and its view follows a run of the store of files with the same
commands and outcomes: each command takes effect or not, and takes effect when it returned
normally. -/
theorem safeReachable_serves_applies (hinj : Function.Injective E.sha256)
    (hdiff : ∀ r t d, E.encode r t = some d → E.decode r d = some t) (h : SafeReachable E svc w)
    {cs : List (Command × Bool)} (hr : Serves E svc cs w w') :
    SafeReachable E svc w' ∧ Applies svc cs (view E w.store) (view E w'.store) :=
  serves_applies svc hinj hdiff h hr

def exactPutDeleteRun : List (Command × Bool) :=
  [(.put ⟨"b.zip", [1, 2]⟩ ⟨"b", "x"⟩ none, true),
    (.delete ⟨"b", "x/a.zip.delta"⟩,
      (run exactEngine (delete ⟨"b", "x/a.zip.delta"⟩) exactTwoWorld).1.isOk)]

theorem exactPutDeleteRun_serves :
    Serves exactEngine sample exactPutDeleteRun exactOneWorld
      (run exactEngine (delete ⟨"b", "x/a.zip.delta"⟩) exactTwoWorld).2 := by
  have hr : (run exactEngine (sample.put ⟨"b.zip", [1, 2]⟩ ⟨"b", "x"⟩ none) exactOneWorld).1 =
      .ok exactTwoSummary := rfl
  refine .cons (by decide) ⟨_, exec_run _ _, by rw [hr]; rfl⟩
    (.cons (by decide) ⟨_, exec_run _ _, rfl⟩ (.nil _))

theorem safeReachable_serves_applies_sample :
    SafeReachable exactEngine sample exactOneWorld ∧
    Serves exactEngine sample exactPutDeleteRun exactOneWorld
      (run exactEngine (delete ⟨"b", "x/a.zip.delta"⟩) exactTwoWorld).2 ∧
    SafeReachable exactEngine sample (run exactEngine (delete ⟨"b", "x/a.zip.delta"⟩) exactTwoWorld).2 ∧
    Applies sample exactPutDeleteRun (view exactEngine exactOneWorld.store)
      (view exactEngine (run exactEngine (delete ⟨"b", "x/a.zip.delta"⟩) exactTwoWorld).2.store) :=
  ⟨exactOneWorld_safeReachable, exactPutDeleteRun_serves, safeReachable_serves_applies sample
    byteHash_injective (Engine.copy_decode_encode _) exactOneWorld_safeReachable
    exactPutDeleteRun_serves⟩

theorem Applies.put_durable {f : LocalFile} {ds : DeltaSpace} {o : Option String}
    {cs : List (Command × Bool)} {V V' : Contents}
    (ha : Applies svc ((.put f ds o, true) :: cs) V V')
    (hcs : ∀ x ∈ cs, ¬x.1.Touches svc ⟨ds.bucket, svc.putKey ds (originalNameOf f o)⟩) :
    V' ⟨ds.bucket, svc.putKey ds (originalNameOf f o)⟩ = some f.data := by
  cases ha with
  | cons _ hok ha => rw [ha.eq_of_not_touches hcs, hok rfl, Function.update_same]

/-- In every store reached by safe operations, along every run of safe commands, faults included,
that starts with a `put` that returned normally and in which no later command names the put's
key, `get` of that key at the end writes the file, byte for byte. -/
theorem safeReachable_put_durable (hinj : Function.Injective E.sha256)
    (hdiff : ∀ r t d, E.encode r t = some d → E.decode r d = some t) (h : SafeReachable E svc w)
    {f : LocalFile} {ds : DeltaSpace} {o : Option String} {cs : List (Command × Bool)}
    (hr : Serves E svc ((.put f ds o, true) :: cs) w w')
    (hcs : ∀ x ∈ cs, ¬x.1.Touches svc ⟨ds.bucket, svc.putKey ds (originalNameOf f o)⟩)
    (name : String) :
    ∃ w'', run E (get ⟨ds.bucket, svc.putKey ds (originalNameOf f o)⟩ (.path (.user name))) w' =
        (.ok (), w'') ∧ w''.files.lookup (.user name) = some f.data := by
  obtain ⟨h', ha⟩ := serves_applies svc hinj hdiff h hr
  have hv := ha.put_durable svc hcs
  -- the view holds a file there, so the key is no reference key
  have hK : ¬IsReferenceKey (svc.putKey ds (originalNameOf f o)) := fun hK => by
    simp [view, hK] at hv
  exact (run_get_view svc hinj hdiff h' hK (q := .user name) trivial).1 _ hv

theorem safeReachable_put_durable_sample :
    SafeReachable exactEngine sample exactOneWorld ∧
    Serves exactEngine sample exactPutDeleteRun exactOneWorld
      (run exactEngine (delete ⟨"b", "x/a.zip.delta"⟩) exactTwoWorld).2 ∧
    (∀ x ∈ exactPutDeleteRun.tail,
      ¬x.1.Touches sample ⟨"b", sample.putKey ⟨"b", "x"⟩ (originalNameOf ⟨"b.zip", [1, 2]⟩ none)⟩) ∧
    ∃ w'', run exactEngine (get ⟨"b", sample.putKey ⟨"b", "x"⟩ (originalNameOf ⟨"b.zip", [1, 2]⟩ none)⟩
        (.path (.user "b.zip"))) (run exactEngine (delete ⟨"b", "x/a.zip.delta"⟩) exactTwoWorld).2 =
        (.ok (), w'') ∧ w''.files.lookup (.user "b.zip") = some [1, 2] :=
  have hcs : ∀ x ∈ exactPutDeleteRun.tail,
      ¬x.1.Touches sample ⟨"b", sample.putKey ⟨"b", "x"⟩ (originalNameOf ⟨"b.zip", [1, 2]⟩ none)⟩ := by
    simp only [exactPutDeleteRun, List.tail_cons, List.mem_singleton, forall_eq, Command.Touches]
    decide
  ⟨exactOneWorld_safeReachable, exactPutDeleteRun_serves, hcs, safeReachable_put_durable sample
    byteHash_injective (Engine.copy_decode_encode _) exactOneWorld_safeReachable
    exactPutDeleteRun_serves hcs "b.zip"⟩

theorem Applies.delete_durable {k : ObjectKey} {cs : List (Command × Bool)} {V V' : Contents}
    (ha : Applies svc ((.delete k, true) :: cs) V V') (hcs : ∀ x ∈ cs, ¬x.1.Touches svc k) :
    V' k = none := by
  cases ha with
  | cons _ hok ha => rw [ha.eq_of_not_touches hcs, hok rfl, Function.update_same]

/-- In every store reached by safe operations, along every run of safe commands, faults included,
that starts with a `delete` of a key that returned normally and in which no later command names
the key, `get` of the key at the end raises: a deleted file never comes back. -/
theorem safeReachable_delete_durable (hinj : Function.Injective E.sha256)
    (hdiff : ∀ r t d, E.encode r t = some d → E.decode r d = some t) (h : SafeReachable E svc w)
    {k : ObjectKey} (hK : ¬IsReferenceKey k.key) {cs : List (Command × Bool)}
    (hr : Serves E svc ((.delete k, true) :: cs) w w') (hcs : ∀ x ∈ cs, ¬x.1.Touches svc k)
    (name : String) : ∃ e w'', run E (get k (.path (.user name))) w' = (.error e, w'') :=
  have hs := serves_applies svc hinj hdiff h hr
  (run_get_view svc hinj hdiff hs.1 hK (q := .user name) trivial).2 (hs.2.delete_durable svc hcs)

def exactDeletePutRun : List (Command × Bool) :=
  [(.delete ⟨"b", "x/a.zip.delta"⟩, true),
    (.put ⟨"c.zip", [1, 2, 3, 4]⟩ ⟨"b", "x"⟩ none,
      (run exactEngine (sample.put ⟨"c.zip", [1, 2, 3, 4]⟩ ⟨"b", "x"⟩ none)
        (run exactEngine (delete ⟨"b", "x/a.zip.delta"⟩) exactTwoWorld).2).1.isOk)]

def exactDeletePutWorld : World :=
  (run exactEngine (sample.put ⟨"c.zip", [1, 2, 3, 4]⟩ ⟨"b", "x"⟩ none)
    (run exactEngine (delete ⟨"b", "x/a.zip.delta"⟩) exactTwoWorld).2).2

theorem safeReachable_delete_durable_sample :
    SafeReachable exactEngine sample exactTwoWorld ∧ ¬IsReferenceKey "x/a.zip.delta" ∧
    Serves exactEngine sample exactDeletePutRun exactTwoWorld exactDeletePutWorld ∧
    (∀ x ∈ exactDeletePutRun.tail, ¬x.1.Touches sample ⟨"b", "x/a.zip.delta"⟩) ∧
    ∃ e w'', run exactEngine (get ⟨"b", "x/a.zip.delta"⟩ (.path (.user "a.zip"))) exactDeletePutWorld =
      (.error e, w'') :=
  have hr : Serves exactEngine sample exactDeletePutRun exactTwoWorld exactDeletePutWorld :=
    .cons (by decide) ⟨_, exec_run _ _, rfl⟩ (.cons (by decide) ⟨_, exec_run _ _, rfl⟩ (.nil _))
  have hcs : ∀ x ∈ exactDeletePutRun.tail, ¬x.1.Touches sample ⟨"b", "x/a.zip.delta"⟩ := by
    simp only [exactDeletePutRun, List.tail_cons, List.mem_singleton, forall_eq, Command.Touches]
    decide
  ⟨exactTwoWorld_safeReachable, by decide, hr, hcs, safeReachable_delete_durable sample
    byteHash_injective (Engine.copy_decode_encode _) exactTwoWorld_safeReachable (by decide) hr hcs
    "a.zip"⟩

end DeltaService

end DeltaGlider
