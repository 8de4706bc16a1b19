import DeltaGlider.Run

/-! # Executions in which calls fail

`Exec` lets any port call raise instead of acting; `Writes`, `Returns`, `Keeps` and `SinkGuard`
bound what a program does over all of them. -/

namespace DeltaGlider

variable {α β : Type} {E : Engine}

theorem exec_run (p : Prog α) (w : World) : Exec E p w (run E p w).1 (run E p w).2 := by
  induction p generalizing w with
  | pure a => exact .pure a w
  | throw e => exact .throw e w
  | call c k ih => exact .call (ih _ _)

/-- A fault-injection run: the calls `fails` picks raise `e` with no effect, the others act. -/
def runFaulting (E : Engine) (fails : Call → Bool) (e : Error) :
    Prog α → World → Except Error α × World
  | .pure a, w => (.ok a, w)
  | .throw e', w => (.error e', w)
  | .call c k, w =>
    if fails c then runFaulting E fails e (k (.error e)) w
    else runFaulting E fails e (k (c.interp E w).1) (c.interp E w).2

theorem exec_runFaulting (fails : Call → Bool) (e : Error) (p : Prog α) (w : World) :
    Exec E p w (runFaulting E fails e p w).1 (runFaulting E fails e p w).2 := by
  induction p generalizing w with
  | pure a => exact .pure a w
  | throw e' => exact .throw e' w
  | call c k ih =>
    rw [runFaulting]
    split
    · exact .fault e (ih _ _)
    · exact .call (ih _ _)

theorem Prog.pure_bind (a : α) (f : α → Prog β) : (Pure.pure a >>= f : Prog β) = f a := rfl

/-- An execution of a composite runs the first half to a normal return and continues, or stops
at the first half's exception. -/
theorem Exec.bind_inv {p : Prog α} {f : α → Prog β} {w w' : World} {r : Except Error β}
    (hx : Exec E (p >>= f) w r w') :
    (∃ a w₁, Exec E p w (.ok a) w₁ ∧ Exec E (f a) w₁ r w') ∨
      (∃ e, r = .error e ∧ Exec E p w (.error e) w') := by
  induction p generalizing w with
  | pure a => exact .inl ⟨a, w, .pure a w, hx⟩
  | throw e => cases hx; exact .inr ⟨e, rfl, .throw e _⟩
  | call c k ih =>
    cases hx with
    | call h =>
      rcases ih _ h with ⟨a, w₁, h₁, h₂⟩ | ⟨e, rfl, h₁⟩
      · exact .inl ⟨a, w₁, .call h₁, h₂⟩
      · exact .inr ⟨e, rfl, .call h₁⟩
    | fault e h =>
      rcases ih _ h with ⟨a, w₁, h₁, h₂⟩ | ⟨e', rfl, h₁⟩
      · exact .inl ⟨a, w₁, .fault e h₁, h₂⟩
      · exact .inr ⟨e', rfl, .fault e h₁⟩

theorem Exec.bind_pure_inv {p : Prog α} {f : α → Prog β} (hf : ∀ a, ∃ b, f a = .pure b)
    {w w' : World} {r : Except Error β} (hx : Exec E (p >>= f) w r w') : ∃ r', Exec E p w r' w' := by
  rcases Exec.bind_inv hx with ⟨a, _, h₁, h₂⟩ | ⟨_, -, h₁⟩
  · obtain ⟨b, hb⟩ := hf a
    rw [hb] at h₂
    cases h₂
    exact ⟨_, h₁⟩
  · exact ⟨_, h₁⟩

theorem Exec.bind {p : Prog α} {f : α → Prog β} {w w₁ w' : World} {a : α} {r : Except Error β}
    (h₁ : Exec E p w (.ok a) w₁) (h₂ : Exec E (f a) w₁ r w') : Exec E (p >>= f) w r w' := by
  generalize hr : (Except.ok a : Except Error α) = r₁ at h₁
  induction h₁ with
  | pure => cases hr; exact h₂
  | throw => cases hr
  | call _ ih => exact .call (ih h₂ hr)
  | fault e _ ih => exact .fault e (ih h₂ hr)

theorem Exec.bind_error {p : Prog α} {f : α → Prog β} {w w' : World} {e : Error}
    (h : Exec E p w (.error e) w') : Exec E (p >>= f) w (.error e) w' := by
  generalize hr : (Except.error e : Except Error α) = r at h
  induction h with
  | pure => cases hr
  | throw => cases hr; exact .throw e _
  | call _ ih => exact .call (ih hr)
  | fault e' _ ih => exact .fault e' (ih hr)

theorem Exec.perform_bind {c : Call} {f : c.Ret → Prog β} {w w' : World} {v : c.Ret}
    {r : Except Error β} (hv : (c.interp E w).1 = .ok v) (h : Exec E (f v) (c.interp E w).2 r w') :
    Exec E (Prog.perform c >>= f) w r w' :=
  .call (by rw [hv]; exact h)

theorem Exec.perform_inv {c : Call} {w w' : World} {r : Except Error c.Ret}
    (hx : Exec E (Prog.perform c) w r w') :
    (r = (c.interp E w).1 ∧ w' = (c.interp E w).2) ∨ (∃ e, r = .error e ∧ w' = w) := by
  cases hx with
  | call h =>
    rcases h' : (c.interp E w).1 with e | v <;> rw [h'] at h <;> cases h
    · exact .inl ⟨rfl, rfl⟩
    · exact .inl ⟨rfl, rfl⟩
  | fault e h => cases h; exact .inr ⟨e, rfl, rfl⟩

/-- The weakest precondition of `Q`: the worlds from which every execution of the program ends
in a result and a world satisfying `Q`. -/
def wp (E : Engine) : Prog α → (Except Error α → World → Prop) → World → Prop
  | .pure a, Q, w => Q (.ok a) w
  | .throw e, Q, w => Q (.error e) w
  | .call c k, Q, w => wp E (k (c.interp E w).1) Q (c.interp E w).2 ∧ ∀ e, wp E (k (.error e)) Q w

theorem wp_iff {p : Prog α} {Q : Except Error α → World → Prop} {w : World} :
    wp E p Q w ↔ ∀ r w', Exec E p w r w' → Q r w' := by
  induction p generalizing w with
  | pure a => exact ⟨fun h r w' hx => by cases hx; exact h, fun h => h _ _ (.pure a w)⟩
  | throw e => exact ⟨fun h r w' hx => by cases hx; exact h, fun h => h _ _ (.throw e w)⟩
  | call c k ih =>
    simp only [wp, ih]
    refine ⟨fun ⟨h1, h2⟩ r w' hx => ?_, fun h => ⟨fun r w' hx => h r w' (.call hx),
      fun e r w' hx => h r w' (.fault e hx)⟩⟩
    cases hx with
    | call hx => exact h1 r w' hx
    | fault e hx => exact h2 e r w' hx

theorem wp_mono {p : Prog α} {Q Q' : Except Error α → World → Prop} {w : World}
    (h : ∀ r w, Q r w → Q' r w) (hp : wp E p Q w) : wp E p Q' w :=
  wp_iff.2 fun r w' hx => h r w' (wp_iff.1 hp r w' hx)

theorem wp_bind {p : Prog α} {f : α → Prog β} {Q : Except Error β → World → Prop} {w : World} :
    wp E (p >>= f) Q w ↔ wp E p (fun r w' => match r with
      | .ok a => wp E (f a) Q w'
      | .error e => Q (.error e) w') w := by
  induction p generalizing w with
  | pure a => rfl
  | throw e => rfl
  | call c k ih => exact and_congr (ih _) (forall_congr' fun _ => ih _)

theorem wp_perform {c : Call} {Q : Except Error c.Ret → World → Prop} {w : World} :
    wp E (Prog.perform c) Q w ↔ Q (c.interp E w).1 (c.interp E w).2 ∧ ∀ e, Q (.error e) w := by
  simp only [Prog.perform, wp]
  rcases (c.interp E w).1 with e | v <;> rfl

theorem wp_tryCatch {p : Prog α} {h : Error → Prog α} {Q : Except Error α → World → Prop}
    {w : World} : wp E (tryCatch p h) Q w ↔ wp E p (fun r w' => match r with
      | .ok a => Q (.ok a) w'
      | .error e => wp E (h e) Q w') w := by
  induction p generalizing w with
  | pure a => rfl
  | throw e => rfl
  | call c k ih => exact and_congr (ih _) (forall_congr' fun _ => ih _)

/-- An execution of a call followed by a continuation: the call returns a value and the
continuation runs from the call's world, or the execution raises, the call having faulted (the
world unchanged) or returned the error itself. -/
theorem Exec.perform_bind_inv {c : Call} {f : c.Ret → Prog β} {w w' : World} {r : Except Error β}
    (hx : Exec E (Prog.perform c >>= f) w r w') :
    (∃ v, (c.interp E w).1 = .ok v ∧ Exec E (f v) (c.interp E w).2 r w') ∨
      ∃ e, r = .error e ∧ (w' = w ∨ (c.interp E w).1 = .error e ∧ w' = (c.interp E w).2) := by
  rcases Exec.bind_inv hx with ⟨v, w1, h1, h2⟩ | ⟨e, rfl, h1⟩
  · rcases Exec.perform_inv h1 with ⟨hv, rfl⟩ | ⟨e, he, -⟩
    · exact .inl ⟨v, hv.symm, h2⟩
    · cases he
  · rcases Exec.perform_inv h1 with ⟨he, rfl⟩ | ⟨e', he, rfl⟩
    · exact .inr ⟨e, rfl, .inr ⟨he.symm, rfl⟩⟩
    · exact .inr ⟨e, rfl, .inl rfl⟩

theorem Exec.tryCatch_inv {p : Prog α} {h : Error → Prog α} {w w' : World} {r : Except Error α}
    (hx : Exec E (tryCatch p h) w r w') :
    (∃ a, r = .ok a ∧ Exec E p w (.ok a) w') ∨ ∃ e w₁, Exec E p w (.error e) w₁ ∧ Exec E (h e) w₁ r w' := by
  induction p generalizing w with
  | pure a => cases hx; exact .inl ⟨a, rfl, .pure a _⟩
  | throw e => exact .inr ⟨e, w, .throw e w, hx⟩
  | call c k ih =>
    cases hx with
    | call hx =>
      rcases ih _ hx with ⟨a, rfl, h₁⟩ | ⟨e, w₁, h₁, h₂⟩
      exacts [.inl ⟨a, rfl, .call h₁⟩, .inr ⟨e, w₁, .call h₁, h₂⟩]
    | fault e' hx =>
      rcases ih _ hx with ⟨a, rfl, h₁⟩ | ⟨e, w₁, h₁, h₂⟩
      exacts [.inl ⟨a, rfl, .fault e' h₁⟩, .inr ⟨e, w₁, .fault e' h₁, h₂⟩]

theorem Exec.tryFinally_inv {p : Prog α} {q : Prog Unit} {w w' : World} {r : Except Error α}
    (hx : Exec E (Prog.tryFinally p q) w r w') :
    ∃ r₁ w₁ r₂, Exec E p w r₁ w₁ ∧ Exec E q w₁ r₂ w' := by
  induction p generalizing w with
  | pure a =>
    change Exec E (q >>= fun _ => Prog.pure a) w r w' at hx
    rcases Exec.bind_inv hx with ⟨_, _, h₁, h₂⟩ | ⟨_, -, h₁⟩
    · cases h₂; exact ⟨_, _, _, .pure a w, h₁⟩
    · exact ⟨_, _, _, .pure a w, h₁⟩
  | throw e =>
    change Exec E (q >>= fun _ => Prog.throw e) w r w' at hx
    rcases Exec.bind_inv hx with ⟨_, _, h₁, h₂⟩ | ⟨_, -, h₁⟩
    · cases h₂; exact ⟨_, _, _, .throw e w, h₁⟩
    · exact ⟨_, _, _, .throw e w, h₁⟩
  | call c k ih =>
    cases hx with
    | call h =>
      obtain ⟨_, _, _, h₁, h₂⟩ := ih _ h
      exact ⟨_, _, _, .call h₁, h₂⟩
    | fault e h =>
      obtain ⟨_, _, _, h₁, h₂⟩ := ih _ h
      exact ⟨_, _, _, .fault e h₁, h₂⟩

theorem Call.interp_nextTemp_le (c : Call) (w : World) : w.nextTemp ≤ (c.interp E w).2.nextTemp := by
  cases c <;> simp only [Call.interp] <;> (try split) <;> (try split) <;> simp

theorem Exec.nextTemp_le {p : Prog α} {w w' : World} {r : Except Error α} (hx : Exec E p w r w') :
    w.nextTemp ≤ w'.nextTemp := by
  induction hx with
  | pure | throw => exact le_rfl
  | call _ ih => exact (Call.interp_nextTemp_le _ _).trans ih
  | fault _ _ ih => exact ih

def Call.write : Call → Option (ObjectKey × Option StoredObject)
  | .put k d md => some (k, some ⟨d, md⟩)
  | .delete k => some (k, none)
  | _ => none

def Store.set (s : Store) (k : ObjectKey) : Option StoredObject → Store
  | some o => s.insert k o
  | none => s.erase k

theorem Store.lookup_set_self (s : Store) (k : ObjectKey) (v : Option StoredObject) :
    (Store.set s k v).lookup k = v := by
  cases v <;> simp [Store.set, AList.lookup_insert, AList.lookup_erase]

theorem Store.lookup_set_ne (s : Store) {k k' : ObjectKey} (v : Option StoredObject) (h : k' ≠ k) :
    (Store.set s k v).lookup k' = s.lookup k' := by
  cases v <;> simp [Store.set, AList.lookup_insert_ne h, AList.lookup_erase_ne h]

theorem Call.interp_store (c : Call) (w : World) :
    (c.interp E w).2.store = match c.write with
      | some (k, v) => Store.set w.store k v
      | none => w.store := by
  cases c <;> simp only [Call.interp, Call.write, Store.set] <;> (try split) <;> (try split) <;> rfl

/-- Every value the program returns normally, whatever its calls return, satisfies `Q`. -/
inductive Returns (Q : α → Prop) : Prog α → Prop
  | pure {a : α} : Q a → Returns Q (.pure a)
  | throw (e : Error) : Returns Q (.throw e)
  | call {c : Call} {k : Except Error c.Ret → Prog α} :
      (∀ r, Returns Q (k r)) → Returns Q (.call c k)

namespace Returns

variable {Q R : α → Prop} {p : Prog α}

theorem mono (h : ∀ a, Q a → R a) (hp : Returns Q p) : Returns R p := by
  induction hp with
  | pure ha => exact .pure (h _ ha)
  | throw e => exact .throw e
  | call _ ih => exact .call ih

theorem bind {f : α → Prog β} {R : β → Prop} (hp : Returns Q p)
    (hf : ∀ a, Q a → Returns R (f a)) : Returns R (p >>= f) := by
  induction hp with
  | pure ha => exact hf _ ha
  | throw e => exact .throw e
  | call _ ih => exact .call ih

theorem trivial (p : Prog α) : Returns (fun _ => True) p := by
  induction p with
  | pure a => exact .pure True.intro
  | throw e => exact .throw e
  | call c k ih => exact .call ih

theorem and (hq : Returns Q p) (hr : Returns R p) : Returns (fun a => Q a ∧ R a) p := by
  induction hq with
  | pure ha => cases hr with | pure hb => exact .pure ⟨ha, hb⟩
  | throw e => exact .throw e
  | call _ ih => cases hr with | call hk => exact .call fun r => ih r (hk r)

theorem perform {c : Call} {Q : c.Ret → Prop} (h : ∀ v, Q v) : Returns Q (Prog.perform c) :=
  .call fun
    | .ok v => .pure (h v)
    | .error e => .throw e

theorem tryCatch {h : Error → Prog α} (hp : Returns Q p) (hh : ∀ e, Returns Q (h e)) :
    Returns Q (tryCatch p h) := by
  induction hp with
  | pure ha => exact .pure ha
  | throw e => exact hh e
  | call _ ih => exact .call ih

theorem tryFinally {q : Prog Unit} (hp : Returns Q p) : Returns Q (Prog.tryFinally p q) := by
  induction hp with
  | pure ha => exact (trivial q).bind fun _ _ => .pure ha
  | throw e => exact (trivial q).bind fun _ _ => .throw e
  | call _ ih => exact .call ih

theorem withTemp {body : Nat → Prog α} (h : ∀ t, Returns Q (body t)) :
    Returns Q (withTemp body) :=
  (trivial _).bind fun t _ => tryFinally (h t)

theorem exec (hp : Returns Q p) {w w' : World} {a : α} (hx : Exec E p w (.ok a) w') : Q a := by
  generalize hr : (Except.ok a : Except Error α) = r at hx
  induction hx with
  | pure => cases hp with | pure h => cases hr; exact h
  | throw => cases hr
  | call _ ih => cases hp with | call hk => exact ih (hk _) hr
  | fault _ _ ih => cases hp with | call hk => exact ih (hk _) hr

theorem run_ok (hp : Returns Q p) {w w' : World} {a : α} (h : run E p w = (.ok a, w')) : Q a := by
  have hx : Exec E p w (run E p w).1 (run E p w).2 := exec_run p w
  rw [h] at hx
  exact hp.exec hx

end Returns

/-- No exception a call raises ends in a normal return: every handler on the way out raises
again, as `except Exception as e: raise ...` does. -/
inductive Strict : Prog α → Prop
  | pure (a : α) : Strict (.pure a)
  | throw (e : Error) : Strict (.throw e)
  | call {c : Call} {k : Except Error c.Ret → Prog α} :
      (∀ r, Strict (k r)) → (∀ e, Returns (fun _ => False) (k (.error e))) → Strict (.call c k)

namespace Strict

variable {p : Prog α}

theorem of_fails (hp : Returns (fun _ => False) p) : Strict p := by
  induction hp with
  | pure h => exact h.elim
  | throw e => exact .throw e
  | call hk ih => exact .call ih fun e => hk (.error e)

theorem perform (c : Call) : Strict (Prog.perform c) :=
  .call (fun r => by cases r <;> constructor) fun e => .throw e

theorem bind {f : α → Prog β} (hp : Strict p) (hf : ∀ a, Strict (f a)) : Strict (p >>= f) := by
  induction hp with
  | pure a => exact hf a
  | throw e => exact .throw e
  | call _ hk ih => exact .call ih fun e => (hk e).bind fun _ h => h.elim

theorem tryCatch {h : Error → Prog α} (hp : Strict p) (hh : ∀ e, Returns (fun _ => False) (h e)) :
    Strict (tryCatch p h) := by
  induction hp with
  | pure a => exact .pure a
  | throw e => exact of_fails (hh e)
  | call _ hk ih => exact .call ih fun e => (hk e).tryCatch hh

theorem tryFinally {q : Prog Unit} (hp : Strict p) (hq : Strict q) :
    Strict (Prog.tryFinally p q) := by
  induction hp with
  | pure a => exact hq.bind fun _ => .pure a
  | throw e => exact hq.bind fun _ => .throw e
  | call _ hk ih => exact .call ih fun e => (hk e).tryFinally

theorem withTemp {body : Nat → Prog α} (h : ∀ t, Strict (body t)) : Strict (withTemp body) :=
  (perform _).bind fun t => (h t).tryFinally (perform _)

theorem ofExcept (r : Except Error α) : Strict (Prog.ofExcept r) := by
  cases r <;> constructor

theorem exec_ok (hp : Strict p) {w w' : World} {a : α} (hx : Exec E p w (.ok a) w') :
    run E p w = (.ok a, w') := by
  generalize hr : (Except.ok a : Except Error α) = r at hx
  induction hx with
  | pure => cases hr; rfl
  | throw => cases hr
  | call _ ih => cases hp with | call hk _ => exact ih (hk _) hr
  | fault e hx => cases hp with | call _ hf => cases hr; exact ((hf e).exec hx).elim

end Strict

theorem Call.interp_store_of_write_none {c : Call} (hc : c.write = none) (w : World) :
    (c.interp E w).2.store = w.store := by
  rw [Call.interp_store, hc]

theorem Exec.read_bind_inv {c : Call} {f : c.Ret → Prog β} (hc : c.write = none) {w w' : World}
    {r : Except Error β} (hx : Exec E (Prog.perform c >>= f) w r w') :
    (∃ v, (c.interp E w).1 = .ok v ∧ (c.interp E w).2.store = w.store ∧
      Exec E (f v) (c.interp E w).2 r w') ∨ w'.store = w.store := by
  have hs := Call.interp_store_of_write_none (E := E) hc w
  rcases Exec.perform_bind_inv hx with ⟨v, hv, hx⟩ | ⟨_, -, rfl | ⟨-, rfl⟩⟩
  exacts [.inl ⟨v, hv, hs, hx⟩, .inr rfl, .inr hs]

/-- Every store write the program can make, whatever its calls return, satisfies `P`. -/
inductive Writes (P : ObjectKey → Option StoredObject → Prop) : Prog α → Prop
  | pure (a : α) : Writes P (.pure a)
  | throw (e : Error) : Writes P (.throw e)
  | call {c : Call} {k : Except Error c.Ret → Prog α} :
      (∀ key v, c.write = some (key, v) → P key v) → (∀ r, Writes P (k r)) → Writes P (.call c k)

namespace Writes

variable {P Q : ObjectKey → Option StoredObject → Prop} {p : Prog α}

theorem lookup (hp : Writes P p) {w w' : World} {r : Except Error α} (hx : Exec E p w r w')
    (key : ObjectKey) :
    w'.store.lookup key = w.store.lookup key ∨ P key (w'.store.lookup key) := by
  induction hx with
  | pure => exact .inl rfl
  | throw => exact .inl rfl
  | @call c k w r w' _ ih =>
    cases hp with
    | call hc hk =>
      rcases ih (hk _) with h | h
      · rw [Call.interp_store] at h
        split at h
        · rename_i k' v hw
          by_cases hkk : key = k'
          · subst hkk
            rw [Store.lookup_set_self] at h
            exact .inr (h ▸ hc key v hw)
          · exact .inl (h.trans (Store.lookup_set_ne _ _ hkk))
        · exact .inl h
      · exact .inr h
  | fault e _ ih => cases hp with
    | call _ hk => exact ih (hk _)

theorem store_eq (hp : Writes (fun _ _ => False) p) {w w' : World} {r : Except Error α}
    (hx : Exec E p w r w') : w'.store = w.store := by
  induction hx with
  | pure | throw => rfl
  | @call c k w r w' _ ih =>
    cases hp with
    | call hc hk =>
      have hw : c.write = none := by
        rcases hw : c.write with _ | ⟨key, v⟩
        exacts [rfl, (hc key v hw).elim]
      rw [ih (hk _), Call.interp_store_of_write_none hw]
  | fault e _ ih => cases hp with
    | call _ hk => exact ih (hk _)

theorem run_lookup (hp : Writes P p) {w w' : World} {r : Except Error α} (h : run E p w = (r, w'))
    (key : ObjectKey) : w'.store.lookup key = w.store.lookup key ∨ P key (w'.store.lookup key) := by
  have hx : Exec E p w (run E p w).1 (run E p w).2 := exec_run p w
  rw [h] at hx
  exact hp.lookup hx key

theorem mono (h : ∀ k v, P k v → Q k v) (hp : Writes P p) : Writes Q p := by
  induction hp with
  | pure a => exact .pure a
  | throw e => exact .throw e
  | call hc _ ih => exact .call (fun k v hw => h k v (hc k v hw)) ih

theorem perform {c : Call} (h : ∀ key v, c.write = some (key, v) → P key v) :
    Writes P (Prog.perform c) :=
  .call h fun r => by cases r <;> constructor

theorem storagePut {k : ObjectKey} {d : Bytes} {md : Metadata} (h : P k (some ⟨d, md⟩)) :
    Writes P (Storage.put k d md) :=
  perform fun key v hw => by
    simp only [Call.write, Option.some.injEq, Prod.mk.injEq] at hw
    exact hw.1 ▸ hw.2 ▸ h

theorem storageDelete {k : ObjectKey} (h : P k none) : Writes P (Storage.delete k) :=
  perform fun key v hw => by
    simp only [Call.write, Option.some.injEq, Prod.mk.injEq] at hw
    exact hw.1 ▸ hw.2 ▸ h

theorem perform_none {c : Call} (h : c.write = none) : Writes P (Prog.perform c) :=
  perform fun _ _ hw => by simp [h] at hw

theorem bind {f : α → Prog β} (hp : Writes P p) (hf : ∀ a, Writes P (f a)) :
    Writes P (p >>= f) := by
  induction hp with
  | pure a => exact hf a
  | throw e => exact .throw e
  | call hc _ ih => exact .call hc ih

theorem tryCatch {h : Error → Prog α} (hp : Writes P p) (hh : ∀ e, Writes P (h e)) :
    Writes P (tryCatch p h) := by
  induction hp with
  | pure a => exact .pure a
  | throw e => exact hh e
  | call hc _ ih => exact .call hc ih

theorem tryFinally {q : Prog Unit} (hp : Writes P p) (hq : Writes P q) :
    Writes P (Prog.tryFinally p q) := by
  induction hp with
  | pure a => exact bind hq fun _ => .pure a
  | throw e => exact bind hq fun _ => .throw e
  | call hc _ ih => exact .call hc ih

theorem ofExcept (r : Except Error α) : Writes P (Prog.ofExcept r) := by
  cases r <;> constructor

theorem withTemp {body : Nat → Prog α} (h : ∀ t, Writes P (body t)) : Writes P (withTemp body) :=
  bind (perform_none rfl) fun t => tryFinally (h t) (perform_none rfl)

theorem and (hp : Writes P p) (hq : Writes Q p) : Writes (fun k v => P k v ∧ Q k v) p := by
  induction hp with
  | pure a => exact .pure a
  | throw e => exact .throw e
  | call hc _ ih => cases hq with
    | call hc' hk => exact .call (fun k v hw => ⟨hc k v hw, hc' k v hw⟩) fun r => ih r (hk r)

theorem bind_returns {Q : α → Prop} {f : α → Prog β} (hp : Writes P p) (hq : Returns Q p)
    (hf : ∀ a, Q a → Writes P (f a)) : Writes P (p >>= f) := by
  induction hp with
  | pure a => cases hq with | pure ha => exact hf a ha
  | throw e => exact .throw e
  | call hc _ ih => cases hq with | call hk => exact .call hc fun r => ih r (hk r)

end Writes

/-- Every execution of `p` from `w` ends in a world whose store satisfies `I`. -/
def Keeps (E : Engine) (I : Store → Prop) (p : Prog α) (w : World) : Prop :=
  wp E p (fun _ w' => I w'.store) w

namespace Keeps

variable {I : Store → Prop} {p : Prog α} {w : World}

theorem exec (h : Keeps E I p w) {r : Except Error α} {w' : World} (hx : Exec E p w r w') :
    I w'.store :=
  wp_iff.1 h r w' hx

theorem mono {J : Store → Prop} (hIJ : ∀ s, I s → J s) (h : Keeps E I p w) : Keeps E J p w :=
  wp_mono (fun _ _ => hIJ _) h

theorem read_bind {c : Call} {f : c.Ret → Prog β} (hc : c.write = none) (hw : I w.store)
    (hk : ∀ v w', I w'.store → Keeps E I (f v) w') : Keeps E I (Prog.perform c >>= f) w := by
  have hs : I (c.interp E w).2.store := by rw [Call.interp_store_of_write_none hc]; exact hw
  refine wp_bind.2 (wp_perform.2 ⟨?_, fun _ => hw⟩)
  rcases (c.interp E w).1 with e | v
  exacts [hs, hk v _ hs]

theorem perform {c : Call} (hw : I w.store) (hc : I (c.interp E w).2.store) :
    Keeps E I (Prog.perform c) w :=
  wp_perform.2 ⟨hc, fun _ => hw⟩

theorem perform_bind {c : Call} {f : c.Ret → Prog β} (hw : I w.store)
    (hc : I (c.interp E w).2.store)
    (hk : ∀ v, (c.interp E w).1 = .ok v → Keeps E I (f v) (c.interp E w).2) :
    Keeps E I (Prog.perform c >>= f) w := by
  refine wp_bind.2 (wp_perform.2 ⟨?_, fun _ => hw⟩)
  rcases h : (c.interp E w).1 with e | v
  exacts [hc, hk v h]

theorem read_bind_ok {c : Call} {f : c.Ret → Prog β} (hc : c.write = none) (hw : I w.store)
    (hk : ∀ v, (c.interp E w).1 = .ok v → I (c.interp E w).2.store → Keeps E I (f v) (c.interp E w).2) :
    Keeps E I (Prog.perform c >>= f) w :=
  have hs : I (c.interp E w).2.store := by rw [Call.interp_store_of_write_none hc]; exact hw
  perform_bind hw hs fun v hv => hk v hv hs

theorem tryCatch_read_bind {c : Call} {h : Error → Prog c.Ret} {f : c.Ret → Prog β}
    (hc : c.write = none) (hw : I w.store)
    (hk : ∀ v, (c.interp E w).1 = .ok v → I (c.interp E w).2.store → Keeps E I (f v) (c.interp E w).2)
    (hh : ∀ e w', I w'.store → Keeps E I (h e >>= f) w') :
    Keeps E I (tryCatch (Prog.perform c) h >>= f) w := by
  have hs : I (c.interp E w).2.store := by rw [Call.interp_store_of_write_none hc]; exact hw
  refine wp_bind.2 (wp_tryCatch.2 (wp_perform.2 ⟨?_, fun e => wp_bind.1 (hh e w hw)⟩))
  rcases hv : (c.interp E w).1 with e | v
  exacts [wp_bind.1 (hh e _ hs), hk v hv hs]

theorem bind {f : α → Prog β} (hp : Keeps E I p w) (hf : ∀ a w', I w'.store → Keeps E I (f a) w') :
    Keeps E I (p >>= f) w :=
  wp_bind.2 (wp_mono (fun r w' h => by cases r; exacts [h, hf _ _ h]) hp)

theorem bind_returns {Q : α → Prop} {f : α → Prog β} (hp : Keeps E I p w) (hq : Returns Q p)
    (hf : ∀ a w', Q a → I w'.store → Keeps E I (f a) w') : Keeps E I (p >>= f) w := by
  refine wp_iff.2 fun r w' hx => ?_
  rcases Exec.bind_inv hx with ⟨a, w1, h1, h2⟩ | ⟨e, rfl, h1⟩
  · exact (hf a w1 (hq.exec h1) (hp.exec h1)).exec h2
  · exact hp.exec h1

theorem tryCatch {h : Error → Prog α} (hp : Keeps E I p w)
    (hh : ∀ e w', I w'.store → Keeps E I (h e) w') : Keeps E I (tryCatch p h) w :=
  wp_tryCatch.2 (wp_mono (fun r w' hr => by cases r; exacts [hh _ _ hr, hr]) hp)

theorem tryFinally {q : Prog Unit} (hp : Keeps E I p w) (hq : ∀ w', I w'.store → Keeps E I q w') :
    Keeps E I (Prog.tryFinally p q) w := by
  induction p generalizing w with
  | pure a => exact bind (hq w hp) fun _ _ h => h
  | throw e => exact bind (hq w hp) fun _ _ h => h
  | call c k ih => exact ⟨ih _ hp.1, fun e => ih _ (hp.2 e)⟩

theorem withTemp {body : Nat → Prog α} (hw : I w.store)
    (h : ∀ t w', I w'.store → Keeps E I (body t) w') : Keeps E I (withTemp body) w :=
  bind (perform hw hw) fun t _ ht => tryFinally (h t _ ht) fun _ h' =>
    perform h' (by rw [Call.interp_store]; exact h')

theorem of_writes {P : ObjectKey → Option StoredObject → Prop} (hp : Writes P p)
    (hI : ∀ s, (∀ k, s.lookup k = w.store.lookup k ∨ P k (s.lookup k)) → I s) : Keeps E I p w :=
  wp_iff.2 fun _ _ hx => hI _ (hp.lookup hx)

theorem of_writes_none (hp : Writes (fun _ _ => False) p) (hw : I w.store)
    (hI : ∀ s s', (∀ k, s'.lookup k = s.lookup k) → I s → I s') : Keeps E I p w :=
  wp_iff.2 fun _ _ hx => hI _ _ (fun k => (hp.lookup hx k).resolve_right id) hw

end Keeps

/-! ## Local effects

`SinkGuard` bounds what a program does to local files and to the output stream, whatever its calls
return, as `Writes` bounds its store writes. -/

def Call.Local : Call → Bool
  | .writeFile .. | .writeStream .. | .rmTemp .. => true
  | _ => false

def Sink.contents (w : World) : Sink → Option Bytes
  | .path q => w.files.lookup q
  | .stream => some w.stream

def Sink.Before (t : Nat) : Sink → Prop
  | .path q => q.Before t
  | .stream => True

def Sink.write (out : Sink) (d : Bytes) : Call :=
  match out with
  | .path q => .writeFile q d
  | .stream => .writeStream d

/-- The local effects of a program, whatever its calls return: it removes only temp directories
numbered `n` or later, and writes the sink at most once, with bytes `V` allows, after which it
only removes temp directories. -/
inductive SinkGuard (E : Engine) (n : Nat) (out : Sink) : (Bytes → Prop) → Prog α → Prop
  | pure {V} (a : α) : SinkGuard E n out V (.pure a)
  | throw {V} (e : Error) : SinkGuard E n out V (.throw e)
  | call {V} {c : Call} {k : Except Error c.Ret → Prog α} : c.Local = false →
      (∀ r, SinkGuard E n out V (k r)) → SinkGuard E n out V (.call c k)
  | mkTemp {V} {k : Except Error Nat → Prog α} : (∀ t, n ≤ t → SinkGuard E n out V (k (.ok t))) →
      (∀ e, SinkGuard E n out V (k (.error e))) → SinkGuard E n out V (.call .mkTemp k)
  | sha256 {V} {d : Bytes} {k : Except Error String → Prog α} :
      SinkGuard E n out V (k (.ok (E.sha256 d))) → (∀ e, SinkGuard E n out V (k (.error e))) →
      SinkGuard E n out V (.call (.sha256 d) k)
  | rmTemp {V} {t : Nat} {k : Except Error Unit → Prog α} : n ≤ t →
      (∀ r, SinkGuard E n out V (k r)) → SinkGuard E n out V (.call (.rmTemp t) k)
  | write {V : Bytes → Prop} {d : Bytes} {k : Except Error (out.write d).Ret → Prog α} : V d →
      (∀ r, SinkGuard E n out (fun _ => False) (k r)) → SinkGuard E n out V (.call (out.write d) k)

theorem Call.interp_local {c : Call} (hc : c.Local = false) (w : World) :
    (c.interp E w).2.files = w.files ∧ (c.interp E w).2.stream = w.stream := by
  cases c <;> simp [Call.Local] at hc <;> simp only [Call.interp] <;> (try split) <;> (try split) <;>
    simp

theorem Sink.contents_write (out : Sink) (d : Bytes) {w w₁ : World}
    (h : out.contents w₁ = out.contents w) :
    out.contents ((out.write d).interp E w₁).2 = out.contents ((out.write d).interp E w).2 := by
  cases out with
  | path q => simp [Sink.contents, Sink.write, Call.interp]
  | stream => simp_all [Sink.contents, Sink.write, Call.interp]

theorem Sink.keep_or_write {out : Sink} {V : Bytes → Prop} {w w₁ w' : World}
    (he : out.contents w₁ = out.contents w)
    (h : out.contents w' = out.contents w₁ ∨
      ∃ d, V d ∧ out.contents w' = out.contents ((out.write d).interp E w₁).2) :
    out.contents w' = out.contents w ∨
      ∃ d, V d ∧ out.contents w' = out.contents ((out.write d).interp E w).2 :=
  h.imp (·.trans he) fun ⟨d, hd, h⟩ => ⟨d, hd, h.trans (Sink.contents_write out d he)⟩

theorem SinkGuard.exec {n : Nat} {out : Sink} {V : Bytes → Prop} {p : Prog α}
    (hp : SinkGuard E n out V p) {w w' : World} {r : Except Error α} (hx : Exec E p w r w')
    (hn : n ≤ w.nextTemp) (ho : out.Before n) :
    out.contents w' = out.contents w ∨
      ∃ d, V d ∧ out.contents w' = out.contents ((out.write d).interp E w).2 := by
  induction hx generalizing V with
  | pure | throw => exact .inl rfl
  | @call c k w r w' _ ih =>
    have hn' := hn.trans (Call.interp_nextTemp_le (E := E) c w)
    cases hp with
    | call hc hk =>
      have ⟨hf, hs⟩ := Call.interp_local (E := E) hc w
      exact Sink.keep_or_write (by cases out <;> simp [Sink.contents, hf, hs]) (ih (hk _) hn')
    | mkTemp hk _ => exact Sink.keep_or_write (by cases out <;> rfl) (ih (hk _ hn) hn')
    | sha256 hk _ => exact ih hk hn
    | rmTemp ht hk =>
      refine Sink.keep_or_write ?_ (ih (hk _) hn')
      cases out with
      | path q => exact lookup_removeScratch_of_before _ (LocalPath.Before.mono ho ht)
      | stream => rfl
    | write hd hk =>
      rcases ih (hk _) hn' with h | ⟨_, ⟨⟩, _⟩
      exact .inr ⟨_, hd, h⟩
  | fault e _ ih =>
    cases hp with
    | call _ hk => exact ih (hk _) hn
    | mkTemp _ hk => exact ih (hk _) hn
    | sha256 _ hk => exact ih (hk _) hn
    | rmTemp _ hk => exact ih (hk _) hn
    | write _ hk => exact (ih (hk _) hn).imp_right fun ⟨_, h, _⟩ => h.elim


namespace SinkGuard

variable {n : Nat} {out : Sink} {V : Bytes → Prop} {p : Prog α}

theorem of_quiet (hp : SinkGuard E n out (fun _ => False) p) : SinkGuard E n out V p := by
  generalize hF : (fun _ : Bytes => False) = F at hp
  induction hp with
  | pure a => exact .pure a
  | throw e => exact .throw e
  | call hc _ ih => exact .call hc fun r => ih r hF
  | mkTemp _ _ ih ih' => exact .mkTemp (fun t ht => ih t ht hF) fun e => ih' e hF
  | sha256 _ _ ih ih' => exact .sha256 (ih hF) fun e => ih' e hF
  | rmTemp ht _ ih => exact .rmTemp ht fun r => ih r hF
  | write hd _ _ => exact absurd hd (by rw [← hF]; exact id)

theorem bind {f : α → Prog β} (hp : SinkGuard E n out (fun _ => False) p)
    (hf : ∀ a, SinkGuard E n out V (f a)) : SinkGuard E n out V (p >>= f) := by
  generalize hF : (fun _ : Bytes => False) = F at hp
  induction hp with
  | pure a => exact hf a
  | throw e => exact .throw e
  | call hc _ ih => exact .call hc fun r => ih r hF
  | mkTemp _ _ ih ih' => exact .mkTemp (fun t ht => ih t ht hF) fun e => ih' e hF
  | sha256 _ _ ih ih' => exact .sha256 (ih hF) fun e => ih' e hF
  | rmTemp ht _ ih => exact .rmTemp ht fun r => ih r hF
  | write hd _ _ => exact absurd hd (by rw [← hF]; exact id)

theorem perform {c : Call} (hc : c.Local = false) : SinkGuard E n out V (Prog.perform c) :=
  .call hc fun r => by cases r <;> constructor

theorem mkTemp_bind {f : Nat → Prog β} (hf : ∀ t, n ≤ t → SinkGuard E n out V (f t)) :
    SinkGuard E n out V (DeltaGlider.mkTemp >>= f) :=
  .mkTemp (fun t ht => hf t ht) fun _ => .throw _

theorem sha256_bind {d : Bytes} {f : String → Prog β} (hf : SinkGuard E n out V (f (E.sha256 d))) :
    SinkGuard E n out V (Hasher.sha256 d >>= f) :=
  .sha256 hf fun _ => .throw _

theorem rmTemp_bind {t : Nat} (ht : n ≤ t) {f : Unit → Prog β}
    (hf : ∀ u, SinkGuard E n out V (f u)) :
    SinkGuard E n out V (DeltaGlider.rmTemp t >>= f) :=
  .rmTemp ht fun r => by cases r; exacts [.throw _, hf _]

theorem ofExcept_bind {x : Except Error α} {f : α → Prog β}
    (hf : ∀ a, x = .ok a → SinkGuard E n out V (f a)) :
    SinkGuard E n out V (Prog.ofExcept x >>= f) := by
  cases x with
  | error e => exact .throw e
  | ok a => exact hf a rfl

theorem rmTemp' {t : Nat} (ht : n ≤ t) : SinkGuard E n out V (DeltaGlider.rmTemp t) :=
  .rmTemp ht fun r => by cases r <;> constructor

theorem ofExcept (x : Except Error α) : SinkGuard E n out V (Prog.ofExcept x) := by
  cases x <;> constructor

theorem tryCatch {h : Error → Prog α} (hp : SinkGuard E n out (fun _ => False) p)
    (hh : ∀ e, SinkGuard E n out (fun _ => False) (h e)) :
    SinkGuard E n out (fun _ => False) (tryCatch p h) := by
  generalize hF : (fun _ : Bytes => False) = F at hp
  induction hp with
  | pure a => exact .pure a
  | throw e => exact hF ▸ hh e
  | call hc _ ih => exact .call hc fun r => ih r hF
  | mkTemp _ _ ih ih' => exact .mkTemp (fun t ht => ih t ht hF) fun e => ih' e hF
  | sha256 _ _ ih ih' => exact .sha256 (ih hF) fun e => ih' e hF
  | rmTemp ht _ ih => exact .rmTemp ht fun r => ih r hF
  | write hd _ _ => exact absurd hd (by rw [← hF]; exact id)

theorem tryFinally {q : Prog Unit} (hp : SinkGuard E n out V p)
    (hq : SinkGuard E n out (fun _ => False) q) : SinkGuard E n out V (Prog.tryFinally p q) := by
  induction hp with
  | pure a => exact of_quiet (bind hq fun _ => .pure a)
  | throw e => exact of_quiet (bind hq fun _ => .throw e)
  | call hc _ ih => exact .call hc ih
  | mkTemp _ _ ih ih' => exact .mkTemp ih ih'
  | sha256 _ _ ih ih' => exact .sha256 ih ih'
  | rmTemp ht _ ih => exact .rmTemp ht ih
  | write hd _ ih => exact .write hd ih

theorem withTemp {body : Nat → Prog α} (h : ∀ t, n ≤ t → SinkGuard E n out V (body t)) :
    SinkGuard E n out V (DeltaGlider.withTemp body) :=
  mkTemp_bind fun t ht => tryFinally (h t ht) (.rmTemp ht fun r => by cases r <;> constructor)

end SinkGuard

end DeltaGlider
