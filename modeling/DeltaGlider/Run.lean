import DeltaGlider.Ports

/-! # Executing programs

The equations by which `run` takes a program apart; proofs rewrite with these and never unfold
`run`. -/

namespace DeltaGlider

variable {α β : Type} {E : Engine} {w : World}

@[simp] theorem run_pure (a : α) : run E (pure a) w = (.ok a, w) := rfl

@[simp] theorem run_pure' (a : α) : run E (Prog.pure a) w = (.ok a, w) := rfl

@[simp] theorem run_throw (e : Error) : run E (throw e : Prog α) w = (.error e, w) := rfl

@[simp] theorem run_throw' (e : Error) : run E (Prog.throw e : Prog α) w = (.error e, w) := rfl

@[simp] theorem run_perform (c : Call) : run E (Prog.perform c) w = c.interp E w := by
  unfold Prog.perform
  rcases h : c.interp E w with ⟨_ | _, _⟩ <;> simp [run, h]

section Calls

variable (k : ObjectKey) (b l sha : String)

@[simp] theorem run_storageHead : run E (Storage.head k) w = (.ok ((w.store.lookup k).map (·.head k)), w) :=
  run_perform _

@[simp] theorem run_storageGet : run E (Storage.get k) w =
    match w.store.lookup k with
    | some o => (.ok o.data, w)
    | none => (.error (.storage ("NoSuchKey: " ++ k.key)), w) := run_perform _

@[simp] theorem run_storagePut (d : Bytes) (md : Metadata) :
    run E (Storage.put k d md) w = (.ok (), { w with store := w.store.insert k ⟨d, md⟩ }) :=
  run_perform _

@[simp] theorem run_storageList : run E (Storage.list b l) w = (.ok (listObjects w.store b l), w) :=
  run_perform _

@[simp] theorem run_storageDelete : run E (Storage.delete k) w = (.ok (), { w with store := w.store.erase k }) :=
  run_perform _

@[simp] theorem run_hasRef : run E (CachePort.hasRef b l sha) w = (.ok (cacheHas E w.cache b l sha), w) :=
  run_perform _

@[simp] theorem run_writeRef (src : Bytes) :
    run E (CachePort.writeRef b l src) w = (.ok (), { w with cache := w.cache.insert (b, l) src }) :=
  run_perform _

@[simp] theorem run_getValidatedRef : run E (CachePort.getValidatedRef b l sha) w =
    match w.cache.lookup (b, l) with
    | some d =>
      if E.sha256 d = sha then (.ok d, w) else (.error (.cache ("Cache corruption: " ++ sha)), w)
    | none => (.error (.cache ("Cache miss: " ++ sha)), w) := run_perform _

@[simp] theorem run_evict : run E (CachePort.evict b l) w = (.ok (), { w with cache := w.cache.erase (b, l) }) :=
  run_perform _

@[simp] theorem run_encode (r t : Bytes) : run E (Diff.encode r t) w =
    match E.encode r t with
    | some d => (.ok d, w)
    | none => (.error (.diffEncode "xdelta3 encode failed"), w) := run_perform _

@[simp] theorem run_decode (r d : Bytes) : run E (Diff.decode r d) w =
    match E.decode r d with
    | some t => (.ok t, w)
    | none => (.error (.diffDecode "xdelta3 decode failed"), w) := run_perform _

@[simp] theorem run_sha256 (d : Bytes) : run E (Hasher.sha256 d) w = (.ok (E.sha256 d), w) :=
  run_perform _

@[simp] theorem run_now : run E Clock.now w = (.ok w.clock, w) := run_perform _

@[simp] theorem run_uuid4 : run E uuid4 w = (.ok (uuidHex w.uuids), { w with uuids := w.uuids + 1 }) :=
  run_perform _

@[simp] theorem run_mkTemp : run E mkTemp w =
    (.ok w.nextTemp, { w with temps := w.nextTemp :: w.temps, nextTemp := w.nextTemp + 1 }) :=
  run_perform _

@[simp] theorem run_rmTemp (t : Nat) : run E (rmTemp t) w =
    (.ok (), { w with temps := w.temps.erase t, files := removeScratch w.files t }) :=
  run_perform _

@[simp] theorem run_readFile (p : LocalPath) : run E (readFile p) w =
    match w.files.lookup p with
    | some d => (.ok d, w)
    | none => (.error (.os "No such file or directory"), w) := run_perform _

@[simp] theorem run_writeFile (p : LocalPath) (d : Bytes) :
    run E (writeFile p d) w = (.ok (), { w with files := w.files.insert p d }) := run_perform _

@[simp] theorem run_writeStream (d : Bytes) :
    run E (writeStream d) w = (.ok (), { w with stream := w.stream ++ d }) := run_perform _

end Calls

theorem Call.interp_getValidatedRef_ok {b l sha : String} {r : Bytes}
    (h : (Call.interp E (.getValidatedRef b l sha) w).1 = .ok r) : E.sha256 r = sha := by
  simp only [Call.interp] at h
  split at h
  · split at h
    · cases h; assumption
    · cases h
  · cases h

theorem Call.interp_encode_ok {r t d : Bytes} (h : (Call.interp E (.encode r t) w).1 = .ok d) :
    E.encode r t = some d := by
  simp only [Call.interp] at h
  split at h
  · cases h; assumption
  · cases h

theorem Call.interp_readFile_ok {p : LocalPath} {d : Bytes}
    (h : (Call.interp E (.readFile p) w).1 = .ok d) : w.files.lookup p = some d := by
  simp only [Call.interp] at h
  split at h
  · cases h; assumption
  · cases h

theorem Call.interp_clock (c : Call) : (c.interp E w).2.clock = w.clock := by
  cases c <;> simp only [Call.interp] <;> (repeat' split) <;> rfl

theorem run_clock (p : Prog α) (w : World) : (run E p w).2.clock = w.clock := by
  induction p generalizing w with
  | pure a => rfl
  | throw e => rfl
  | call c k ih => rw [run, ih, Call.interp_clock]

theorem run_bind (p : Prog α) (f : α → Prog β) (w : World) :
    run E (p >>= f) w =
      match run E p w with
      | (.ok a, w') => run E (f a) w'
      | (.error e, w') => (.error e, w') := by
  induction p generalizing w with
  | pure a => rfl
  | throw e => rfl
  | call c k ih => exact ih _ _

@[simp] theorem run_bind_ok (p : Prog α) (f : α → Prog β) (a : α) (w' : World)
    (h : run E p w = (.ok a, w')) : run E (p >>= f) w = run E (f a) w' := by
  rw [run_bind, h]

theorem run_bind_eq_ok {p : Prog α} {f : α → Prog β} {b : β} {w'' : World} :
    run E (p >>= f) w = (.ok b, w'') ↔
      ∃ a w', run E p w = (.ok a, w') ∧ run E (f a) w' = (.ok b, w'') := by
  rw [run_bind]; rcases h : run E p w with ⟨_ | a, w'⟩ <;> simp [and_assoc]

theorem run_tryCatch (p : Prog α) (h : Error → Prog α) (w : World) :
    run E (tryCatch p h) w =
      match run E p w with
      | (.ok a, w') => (.ok a, w')
      | (.error e, w') => run E (h e) w' := by
  induction p generalizing w with
  | pure a => rfl
  | throw e => rfl
  | call c k ih => exact ih _ _

theorem run_ofExcept (r : Except Error α) : run E (Prog.ofExcept r) w = (r, w) := by
  cases r <;> rfl

theorem run_tryFinally (body : Prog α) (cleanup : Prog Unit) (w : World) :
    run E (Prog.tryFinally body cleanup) w =
      match run E body w with
      | (r, w') =>
        match run E cleanup w' with
        | (.ok _, w'') => (r, w'')
        | (.error e, w'') => (.error e, w'') := by
  induction body generalizing w with
  | pure a =>
    show run E (cleanup >>= fun _ => Prog.pure a) w = _
    rw [run_bind]; rcases h : run E cleanup w with ⟨_ | _, _⟩ <;> simp [run, h]
  | throw e =>
    show run E (cleanup >>= fun _ => Prog.throw e) w = _
    rw [run_bind]; rcases h : run E cleanup w with ⟨_ | _, _⟩ <;> simp [run, h]
  | call c k ih => exact ih _ _

/-- A temporary directory is allocated, used by the body, and removed on every exit. -/
@[simp] theorem run_withTemp (body : Nat → Prog α) : run E (withTemp body) w =
    ((run E (body w.nextTemp) { w with temps := w.nextTemp :: w.temps, nextTemp := w.nextTemp + 1 }).1,
      let w' := (run E (body w.nextTemp)
        { w with temps := w.nextTemp :: w.temps, nextTemp := w.nextTemp + 1 }).2
      { w' with temps := w'.temps.erase w.nextTemp, files := removeScratch w'.files w.nextTemp }) := by
  simp only [withTemp, run_bind, run_mkTemp, run_tryFinally, run_rmTemp]

theorem run_withTemp_eq_ok {body : Nat → Prog α} {a : α} {w' : World} :
    run E (withTemp body) w = (.ok a, w') ↔
      ∃ w₁, run E (body w.nextTemp)
          { w with temps := w.nextTemp :: w.temps, nextTemp := w.nextTemp + 1 } = (.ok a, w₁) ∧
        w' = { w₁ with temps := w₁.temps.erase w.nextTemp,
                       files := removeScratch w₁.files w.nextTemp } := by
  rw [run_withTemp]
  constructor
  · intro h
    rw [Prod.mk.injEq] at h
    exact ⟨_, Prod.ext h.1 rfl, h.2.symm⟩
  · rintro ⟨w₁, h, rfl⟩
    simp [h]

/-- When no port call fails, `p` returns normally from every world. -/
def NoThrow (E : Engine) (p : Prog α) : Prop := ∀ w, ∃ a, (run E p w).1 = .ok a

namespace NoThrow

theorem pure (a : α) : NoThrow E (Pure.pure a : Prog α) := fun _ => ⟨a, rfl⟩

theorem perform {c : Call} (hc : ∀ w, ∃ v, (c.interp E w).1 = .ok v) :
    NoThrow E (Prog.perform c) := fun w => by
  rw [run_perform]; exact hc w

theorem bind {p : Prog α} {f : α → Prog β} (hp : NoThrow E p) (hf : ∀ a, NoThrow E (f a)) :
    NoThrow E (p >>= f) := fun w => by
  obtain ⟨a, ha⟩ := hp w
  rw [run_bind, ← Prod.mk.eta (p := run E p w), ha]
  exact hf a _

theorem tryCatch {p : Prog α} {h : Error → Prog α} (hh : ∀ e, NoThrow E (h e)) :
    NoThrow E (tryCatch p h) := fun w => by
  rw [run_tryCatch]
  rcases run E p w with ⟨_ | a, w'⟩
  exacts [hh _ w', ⟨a, rfl⟩]

theorem run_eq (hp : NoThrow E p) (w : World) : ∃ a, run E p w = (.ok a, (run E p w).2) := by
  obtain ⟨a, ha⟩ := hp w
  exact ⟨a, by rw [← ha]⟩

end NoThrow

end DeltaGlider
