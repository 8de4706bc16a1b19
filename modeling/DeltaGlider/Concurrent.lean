import DeltaGlider.Exec

/-! # Two clients against one store

Calls of two programs interleave in any order (`Duo.Step`); `wpR` is one client's view, with the
other's writes bounded by its guarantee (`Guar`), and `Duo.star_wpR` combines the two views. -/

namespace DeltaGlider

variable {α β : Type} {E : Engine}

abbrev Log := List (Bool × ObjectKey × Option StoredObject)

def Call.logged (c : Call) (me : Bool) : Log :=
  match c.write with
  | some (k, v) => [(me, k, v)]
  | none => []

def Prog.outcome : Prog α → Option (Except Error α)
  | .pure a => some (.ok a)
  | .throw e => some (.error e)
  | .call _ _ => none

/-- Every store write the program can make, whatever its calls return in some world, satisfies
`P`: what a client guarantees the other. -/
inductive Guar (E : Engine) (P : ObjectKey → Option StoredObject → Prop) : Prog α → Prop
  | pure (a : α) : Guar E P (.pure a)
  | throw (e : Error) : Guar E P (.throw e)
  | call {c : Call} {k : Except Error c.Ret → Prog α} :
      (∀ key v, c.write = some (key, v) → P key v) → (∀ w, Guar E P (k (c.interp E w).1)) →
      Guar E P (.call c k)

theorem Writes.guar {P : ObjectKey → Option StoredObject → Prop} {p : Prog α} (h : Writes P p) :
    Guar E P p := by
  induction h with
  | pure a => exact .pure a
  | throw e => exact .throw e
  | call hc _ ih => exact .call hc fun _ => ih _

theorem Guar.mono {P P' : ObjectKey → Option StoredObject → Prop} (h : ∀ k v, P k v → P' k v)
    {p : Prog α} (hp : Guar E P p) : Guar E P' p := by
  induction hp with
  | pure a => exact .pure a
  | throw e => exact .throw e
  | call hc _ ih => exact .call (fun k v hw => h k v (hc k v hw)) ih

/-- Two clients sharing the store `store`; the `store` field of a client's own world is stale and
replaced by the shared one at each of its calls. -/
structure Duo (α β : Type) where
  store : Store
  log : Log
  p₁ : Prog α
  w₁ : World
  p₂ : Prog β
  w₂ : World

/-- One call of either client, against the shared store. -/
inductive Duo.Step (E : Engine) : Duo α β → Duo α β → Prop
  | left {s l c k w₁ p₂ w₂} :
      Duo.Step E ⟨s, l, .call c k, w₁, p₂, w₂⟩
        ⟨(c.interp E { w₁ with store := s }).2.store, l ++ c.logged true,
          k (c.interp E { w₁ with store := s }).1, (c.interp E { w₁ with store := s }).2, p₂, w₂⟩
  | right {s l p₁ w₁ c k w₂} :
      Duo.Step E ⟨s, l, p₁, w₁, .call c k, w₂⟩
        ⟨(c.interp E { w₂ with store := s }).2.store, l ++ c.logged false, p₁, w₁,
          k (c.interp E { w₂ with store := s }).1, (c.interp E { w₂ with store := s }).2⟩

def Duo.stepBy (E : Engine) (d : Duo α β) : Bool → Duo α β
  | true =>
    match d with
    | ⟨s, l, .call c k, w₁, p₂, w₂⟩ =>
      ⟨(c.interp E { w₁ with store := s }).2.store, l ++ c.logged true,
        k (c.interp E { w₁ with store := s }).1, (c.interp E { w₁ with store := s }).2, p₂, w₂⟩
    | d => d
  | false =>
    match d with
    | ⟨s, l, p₁, w₁, .call c k, w₂⟩ =>
      ⟨(c.interp E { w₂ with store := s }).2.store, l ++ c.logged false, p₁, w₁,
        k (c.interp E { w₂ with store := s }).1, (c.interp E { w₂ with store := s }).2⟩
    | d => d

def Duo.schedule (E : Engine) : List Bool → Duo α β → Duo α β
  | [], d => d
  | b :: bs, d => Duo.schedule E bs (d.stepBy E b)

theorem Duo.star_stepBy (d : Duo α β) (b : Bool) :
    Relation.ReflTransGen (Duo.Step E) d (d.stepBy E b) := by
  obtain ⟨s, l, p₁, w₁, p₂, w₂⟩ := d
  cases b
  · cases p₂ <;> first | exact .refl | exact .single .right
  · cases p₁ <;> first | exact .refl | exact .single .left

theorem Duo.star_schedule : ∀ (bs : List Bool) (d : Duo α β),
    Relation.ReflTransGen (Duo.Step E) d (Duo.schedule E bs d)
  | [], _ => .refl
  | b :: bs, d => (Duo.star_stepBy d b).trans (Duo.star_schedule bs _)

section View

variable {Q : ObjectKey → Option StoredObject → Prop} {me : Bool}

inductive EnvStep (Q : ObjectKey → Option StoredObject → Prop) (me : Bool) :
    World × Log → World × Log → Prop
  | write {w l k v} : Q k v →
      EnvStep Q me (w, l) ({ w with store := w.store.set k v }, l ++ [(!me, k, v)])

/-- Any number of writes of the other client. -/
def Env (Q : ObjectKey → Option StoredObject → Prop) (me : Bool) : World × Log → World × Log → Prop :=
  Relation.ReflTransGen (EnvStep Q me)

/-- What every run of `p` by client `me` from `w` and log `l` ends in, when the other client's
writes, all allowed by `Q`, may come before each call and after the last. -/
def wpR (E : Engine) (Q : ObjectKey → Option StoredObject → Prop) (me : Bool) :
    Prog α → (Except Error α → World → Log → Prop) → World → Log → Prop
  | .pure a, P, w, l => ∀ w' l', Env Q me (w, l) (w', l') → P (.ok a) w' l'
  | .throw e, P, w, l => ∀ w' l', Env Q me (w, l) (w', l') → P (.error e) w' l'
  | .call c k, P, w, l => ∀ w₀ l₀, Env Q me (w, l) (w₀, l₀) →
      wpR E Q me (k (c.interp E w₀).1) P (c.interp E w₀).2 (l₀ ++ c.logged me)

variable {P : Except Error α → World → Log → Prop} {p : Prog α}

theorem wpR_env {w w' : World} {l l' : Log} (h : wpR E Q me p P w l)
    (he : Env Q me (w, l) (w', l')) : wpR E Q me p P w' l' := by
  cases p with
  | pure a => exact fun w'' l'' he' => h w'' l'' (he.trans he')
  | throw e => exact fun w'' l'' he' => h w'' l'' (he.trans he')
  | call c k => exact fun w'' l'' he' => h w'' l'' (he.trans he')

theorem Env.keep {A : World → Prop} (hA : ∀ w s, A w → A { w with store := s })
    {x y : World × Log} (he : Env Q me x y) (h : A x.1) : A y.1 := by
  induction he with
  | refl => exact h
  | tail _ hs ih => cases hs; exact hA _ _ ih

theorem Env.eq_files {x y : World × Log} (he : Env Q me x y) : y.1.files = x.1.files :=
  he.keep (A := fun w => w.files = x.1.files) (fun _ _ h => h) rfl

theorem Env.log_prefix {x y : World × Log} (he : Env Q me x y) : x.2 <+: y.2 := by
  induction he with
  | refl => exact List.prefix_refl _
  | tail _ hs ih => cases hs; exact ih.trans (List.prefix_append _ _)

theorem Env.of_rely {Q' : ObjectKey → Option StoredObject → Prop} (hQ : ∀ k v, Q' k v → Q k v)
    {x y : World × Log} (he : Env Q' me x y) : Env Q me x y := by
  induction he with
  | refl => exact .refl
  | tail _ hs ih => cases hs with | write hq => exact ih.tail (.write (hQ _ _ hq))

theorem env_of_call {c : Call} (hc : ∀ key v, c.write = some (key, v) → Q key v) (w : World)
    (s : Store) (l : Log) (w' : World) :
    Env Q me ({ w' with store := s }, l)
      ({ w' with store := (c.interp E { w with store := s }).2.store }, l ++ c.logged !me) := by
  rw [Call.interp_store]
  unfold Call.logged
  rcases hw : c.write with _ | ⟨k, v⟩
  · simpa using Relation.ReflTransGen.refl
  · simpa using Relation.ReflTransGen.single
      (show EnvStep Q me ({ w' with store := s }, l) _ from .write (hc k v hw))

/-- A store property that the other client's writes keep. -/
def Stable (Q : ObjectKey → Option StoredObject → Prop) (A : Store → Prop) : Prop :=
  ∀ s k v, Q k v → A s → A (s.set k v)

theorem Stable.env {A : Store → Prop} (hA : Stable Q A) {x y : World × Log} (he : Env Q me x y)
    (h : A x.1.store) : A y.1.store := by
  induction he with
  | refl => exact h
  | tail _ hs ih => cases hs with | write hq => exact hA _ _ _ hq ih

theorem Stable.and {A B : Store → Prop} (hA : Stable Q A) (hB : Stable Q B) :
    Stable Q (fun s => A s ∧ B s) :=
  fun s k v hq h => ⟨hA s k v hq h.1, hB s k v hq h.2⟩

theorem stable_lookup {K : ObjectKey} {R : Option StoredObject → Prop}
    (h : ∀ k v, Q k v → k = K → R v) : Stable Q (fun s => R (s.lookup K)) := by
  intro s k v hq hR
  by_cases e : K = k
  · subst e; rw [Store.lookup_set_self]; exact h _ _ hq rfl
  · rw [Store.lookup_set_ne _ _ e]; exact hR

theorem Stable.exists {γ : Type} {A : γ → Store → Prop} (h : ∀ x, Stable Q (A x)) :
    Stable Q (fun s => ∃ x, A x s) :=
  fun s k v hq ⟨x, hx⟩ => ⟨x, h x s k v hq hx⟩

def OnOk (Post : α → Store → Log → Prop) : Except Error α → World → Log → Prop
  | .ok a, w, l => Post a w.store l
  | .error _, _, _ => True

end View

section Rules

variable {Q : ObjectKey → Option StoredObject → Prop} {me : Bool} {w : World} {l : Log}

theorem wpR_mono {P P' : Except Error α → World → Log → Prop} (h : ∀ r w l, P r w l → P' r w l) :
    ∀ {p : Prog α} {w : World} {l : Log}, wpR E Q me p P w l → wpR E Q me p P' w l
  | .pure _, _, _, hp => fun w' l' he => h _ _ _ (hp w' l' he)
  | .throw _, _, _, hp => fun w' l' he => h _ _ _ (hp w' l' he)
  | .call _ _, _, _, hp => fun w₀ l₀ he => wpR_mono h (hp w₀ l₀ he)

theorem wpR_post_env {P : Except Error α → World → Log → Prop} :
    ∀ {p : Prog α} {w : World} {l : Log}, wpR E Q me p P w l →
      wpR E Q me p (fun r w l => ∀ w' l', Env Q me (w, l) (w', l') → P r w' l') w l
  | .pure _, _, _, hp => fun _ _ he _ _ he' => hp _ _ (he.trans he')
  | .throw _, _, _, hp => fun _ _ he _ _ he' => hp _ _ (he.trans he')
  | .call _ _, _, _, hp => fun w₀ l₀ he => wpR_post_env (hp w₀ l₀ he)

theorem wpR_bind {P : Except Error β → World → Log → Prop} {p : Prog α} {f : α → Prog β}
    (h : wpR E Q me p (fun r w l => match r with
      | .ok a => wpR E Q me (f a) P w l
      | .error e => P (.error e) w l) w l) : wpR E Q me (p >>= f) P w l := by
  induction p generalizing w l with
  | pure a => exact h w l .refl
  | throw e => exact h
  | call c k ih => exact fun w₀ l₀ he => ih _ (h w₀ l₀ he)

theorem wpR_pure_bind {P : Except Error β → World → Log → Prop} {a : α} {f : α → Prog β}
    (h : wpR E Q me (f a) P w l) : wpR E Q me (pure a >>= f) P w l := h

theorem wpR_tryCatch {P : Except Error α → World → Log → Prop} {p : Prog α} {h : Error → Prog α}
    (hp : wpR E Q me p (fun r w l => match r with
      | .ok a => P (.ok a) w l
      | .error e => wpR E Q me (h e) P w l) w l) : wpR E Q me (tryCatch p h) P w l := by
  induction p generalizing w l with
  | pure a => exact hp
  | throw e => exact hp w l .refl
  | call c k ih => exact fun w₀ l₀ he => ih _ (hp w₀ l₀ he)

theorem wpR_tryFinally {P : Except Error α → World → Log → Prop} {p : Prog α} {q : Prog Unit}
    (hp : wpR E Q me p (fun r w l => wpR E Q me q (fun r' w' l' => P (match r' with
      | .ok _ => r
      | .error e => .error e) w' l') w l) w l) : wpR E Q me (Prog.tryFinally p q) P w l := by
  induction p generalizing w l with
  | pure a =>
    refine wpR_bind (wpR_mono ?_ (wpR_post_env (hp w l .refl)))
    rintro (_ | _) w' l' h
    exacts [h _ _ .refl, h]
  | throw e =>
    refine wpR_bind (wpR_mono ?_ (wpR_post_env (hp w l .refl)))
    rintro (_ | _) w' l' h
    exacts [h _ _ .refl, h]
  | call c k ih => exact fun w₀ l₀ he => ih _ (hp w₀ l₀ he)

theorem wpR_call {A : Store → Prop} {P : Except Error β → World → Log → Prop} {c : Call}
    {f : c.Ret → Prog β} (hA : Stable Q A) (h : A w.store)
    (hok : ∀ w₀ l₀ v, A w₀.store → (c.interp E w₀).1 = .ok v →
      wpR E Q me (f v) P (c.interp E w₀).2 (l₀ ++ c.logged me))
    (herr : ∀ e w' l', P (.error e) w' l') : wpR E Q me (Prog.perform c >>= f) P w l := by
  intro w₀ l₀ he
  have hA₀ : A w₀.store := hA.env he h
  show wpR E Q me ((match (c.interp E w₀).1 with
    | .ok v => Prog.pure v
    | .error e => Prog.throw e) >>= f) P _ _
  rcases hv : (c.interp E w₀).1 with e | v
  · exact fun _ _ _ => herr _ _ _
  · exact hok w₀ l₀ v hA₀ hv

theorem wpR_call_env {P : Except Error β → World → Log → Prop} {c : Call} {f : c.Ret → Prog β}
    (hok : ∀ w₀ l₀ v, Env Q me (w, l) (w₀, l₀) → (c.interp E w₀).1 = .ok v →
      wpR E Q me (f v) P (c.interp E w₀).2 (l₀ ++ c.logged me))
    (herr : ∀ e w' l', P (.error e) w' l') : wpR E Q me (Prog.perform c >>= f) P w l := by
  intro w₀ l₀ he
  show wpR E Q me ((match (c.interp E w₀).1 with
    | .ok v => Prog.pure v
    | .error e => Prog.throw e) >>= f) P _ _
  rcases hv : (c.interp E w₀).1 with e | v
  · exact fun _ _ _ => herr _ _ _
  · exact hok w₀ l₀ v he hv

theorem wpR_rethrow_env {P : Except Error β → World → Log → Prop} {c : Call} {g : Error → Error}
    {f : c.Ret → Prog β}
    (hok : ∀ w₀ l₀ v, Env Q me (w, l) (w₀, l₀) → (c.interp E w₀).1 = .ok v →
      wpR E Q me (f v) P (c.interp E w₀).2 (l₀ ++ c.logged me))
    (herr : ∀ e w' l', P (.error e) w' l') :
    wpR E Q me (tryCatch (Prog.perform c) (fun e => Prog.throw (g e)) >>= f) P w l := by
  intro w₀ l₀ he
  show wpR E Q me ((tryCatch (match (c.interp E w₀).1 with
    | .ok v => Prog.pure v
    | .error e => Prog.throw e) fun e => Prog.throw (g e)) >>= f) P _ _
  rcases hv : (c.interp E w₀).1 with e | v
  · exact fun _ _ _ => herr _ _ _
  · exact hok w₀ l₀ v he hv

theorem wpR_bind_frame {A : World → Prop} {P : Except Error β → World → Log → Prop} {p : Prog α}
    {f : α → Prog β} (hc : ∀ (c : Call) w, A w → A (c.interp E w).2)
    (hA : ∀ w s, A w → A { w with store := s }) (h : A w)
    (hf : ∀ a w' l', A w' → wpR E Q me (f a) P w' l') (herr : ∀ e w' l', P (.error e) w' l') :
    wpR E Q me (p >>= f) P w l := by
  induction p generalizing w l with
  | pure a => exact hf a w l h
  | throw e => exact fun _ _ _ => herr _ _ _
  | call c k ih => exact fun w₀ l₀ he => ih _ (hc c w₀ (he.keep hA h))

theorem wpR_read {A : Store → Prop} {P : Except Error β → World → Log → Prop} {c : Call}
    {f : c.Ret → Prog β} (hc : c.write = none) (hA : Stable Q A) (h : A w.store)
    (hok : ∀ w₀ l₀ v, A (c.interp E w₀).2.store → (c.interp E w₀).1 = .ok v →
      wpR E Q me (f v) P (c.interp E w₀).2 (l₀ ++ c.logged me))
    (herr : ∀ e w' l', P (.error e) w' l') : wpR E Q me (Prog.perform c >>= f) P w l :=
  wpR_call hA h (fun w₀ l₀ v h₀ hv => hok w₀ l₀ v (by rwa [Call.interp_store_of_write_none hc]) hv)
    herr

theorem wpR_bind_read {A : Store → Prop} {P : Except Error β → World → Log → Prop} {p : Prog α}
    {f : α → Prog β} (hp : Writes (fun _ _ => False) p) (hA : Stable Q A) (h : A w.store)
    (hf : ∀ a w' l', A w'.store → wpR E Q me (f a) P w' l')
    (herr : ∀ e w' l', P (.error e) w' l') : wpR E Q me (p >>= f) P w l := by
  induction hp generalizing w l with
  | pure a => exact hf a w l h
  | throw e => exact fun _ _ _ => herr _ _ _
  | @call c k hc _ ih =>
    intro w₀ l₀ he
    have hw : c.write = none := by
      rcases hcw : c.write with _ | ⟨k, v⟩
      · rfl
      · exact (hc k v hcw).elim
    refine ih _ ?_
    rw [Call.interp_store_of_write_none hw]
    exact hA.env he h

theorem wpR_and {P P' : Except Error α → World → Log → Prop} :
    ∀ {p : Prog α} {w : World} {l : Log}, wpR E Q me p P w l → wpR E Q me p P' w l →
      wpR E Q me p (fun r w l => P r w l ∧ P' r w l) w l
  | .pure _, _, _, h, h' => fun w' l' he => ⟨h w' l' he, h' w' l' he⟩
  | .throw _, _, _, h, h' => fun w' l' he => ⟨h w' l' he, h' w' l' he⟩
  | .call _ _, _, _, h, h' => fun w₀ l₀ he => wpR_and (h w₀ l₀ he) (h' w₀ l₀ he)

theorem wpR_of_writes {A : Store → Prop} {P' : ObjectKey → Option StoredObject → Prop}
    {p : Prog α} (hp : Writes P' p) (hQ : Stable Q A) (hP : Stable P' A) (h : A w.store) :
    wpR E Q me p (fun _ w _ => A w.store) w l := by
  induction hp generalizing w l with
  | pure a => exact fun _ _ he => hQ.env he h
  | throw e => exact fun _ _ he => hQ.env he h
  | @call c k hc _ ih =>
    intro w₀ l₀ he
    refine ih _ ?_
    have h₀ : A w₀.store := hQ.env he h
    rw [Call.interp_store]
    split
    · exact hP _ _ _ (hc _ _ ‹_›) h₀
    · exact h₀

theorem wpR.of_rely {Q' : ObjectKey → Option StoredObject → Prop} (hQ : ∀ k v, Q' k v → Q k v)
    {P : Except Error α → World → Log → Prop} :
    ∀ {p : Prog α} {w : World} {l : Log}, wpR E Q me p P w l → wpR E Q' me p P w l
  | .pure _, _, _, h => fun w' l' he => h w' l' (he.of_rely hQ)
  | .throw _, _, _, h => fun w' l' he => h w' l' (he.of_rely hQ)
  | .call _ _, _, _, h => fun w₀ l₀ he => wpR.of_rely hQ (h w₀ l₀ (he.of_rely hQ))

theorem wpR_of_forall {P : Except Error α → World → Log → Prop} (h : ∀ r w l, P r w l) :
    ∀ {p : Prog α} {w : World} {l : Log}, wpR E Q me p P w l
  | .pure _, _, _ => fun _ _ _ => h _ _ _
  | .throw _, _, _ => fun _ _ _ => h _ _ _
  | .call _ _, _, _ => fun _ _ _ => wpR_of_forall h

theorem wpR_perform {c : Call} {P : Except Error c.Ret → World → Log → Prop}
    (h : ∀ w₀ l₀, Env Q me (w, l) (w₀, l₀) → ∀ w' l',
      Env Q me ((c.interp E w₀).2, l₀ ++ c.logged me) (w', l') → P (c.interp E w₀).1 w' l') :
    wpR E Q me (Prog.perform c) P w l := by
  intro w₀ l₀ he
  revert he
  show Env Q me (w, l) (w₀, l₀) → wpR E Q me (match (c.interp E w₀).1 with
    | .ok v => Prog.pure v
    | .error e => Prog.throw e) P _ _
  have := h w₀ l₀
  revert this
  rcases (c.interp E w₀).1 with e | v <;> exact id

theorem wpR_tryCatch_read {A : Store → Prop} {Post : β → Store → Log → Prop} {c : Call}
    {g : Error → Error} {f : c.Ret → Prog β} (hc : c.write = none) (hA : Stable Q A)
    (h : A w.store)
    (hok : ∀ w₀ l₀ v, A (c.interp E w₀).2.store → (c.interp E w₀).1 = .ok v →
      wpR E Q me (f v) (OnOk Post) (c.interp E w₀).2 (l₀ ++ c.logged me)) :
    wpR E Q me (tryCatch (Prog.perform c) (fun e => Prog.throw (g e)) >>= f) (OnOk Post) w l := by
  intro w₀ l₀ he
  show wpR E Q me ((tryCatch (match (c.interp E w₀).1 with
    | .ok v => Prog.pure v
    | .error e => Prog.throw e) fun e => Prog.throw (g e)) >>= f) _ _ _
  rcases hv : (c.interp E w₀).1 with e | v
  · exact fun _ _ _ => trivial
  · exact hok w₀ l₀ v (by rw [Call.interp_store_of_write_none hc]; exact hA.env he h) hv

theorem wpR_withTemp {A A' : Store → Prop} {body : Nat → Prog α} (hA : Stable Q A)
    (hA' : Stable Q A') (h : A w.store)
    (hb : ∀ w₀ l₀ t, A w₀.store → wpR E Q me (body t) (OnOk fun _ s _ => A' s) w₀ l₀) :
    wpR E Q me (withTemp body) (OnOk fun _ s _ => A' s) w l := by
  unfold withTemp
  refine wpR_call hA h (fun w₀ l₀ t h₀ _ => wpR_tryFinally (wpR_mono ?_ (hb _ _ t h₀)))
    fun _ _ _ => trivial
  rintro (_ | a) w₁ l₁ h₁
  · exact wpR_of_forall fun r _ _ => by cases r <;> trivial
  · refine wpR_perform fun w₂ l₂ he₂ w' l' he' => ?_
    have h₂ : A' w₂.store := hA'.env he₂ h₁
    exact hA'.env he' h₂

theorem wpR_bind_onOk {Post : β → Store → Log → Prop} {R : α → Store → Log → Prop} {p : Prog α}
    {f : α → Prog β} (hp : wpR E Q me p (OnOk R) w l)
    (hf : ∀ a w l, R a w.store l → wpR E Q me (f a) (OnOk Post) w l) :
    wpR E Q me (p >>= f) (OnOk Post) w l :=
  wpR_bind (wpR_mono (fun r _ _ h => by cases r; exacts [trivial, hf _ _ _ h]) hp)

theorem wpR_perform_stable {A A' : Store → Prop} {c : Call} (hA : Stable Q A) (hA' : Stable Q A')
    (h : A w.store) (hc : ∀ w₀, A w₀.store → A' (c.interp E w₀).2.store) :
    wpR E Q me (Prog.perform c) (OnOk fun _ s _ => A' s) w l :=
  wpR_perform fun w₀ _ he _ _ he' => by
    cases (c.interp E w₀).1 <;> [trivial; exact hA'.env he' (hc w₀ (hA.env he h))]

theorem wpR_pure {A : Store → Prop} {P : Except Error α → World → Log → Prop} {a : α}
    (hA : Stable Q A) (h : A w.store) (hP : ∀ w' l', A w'.store → P (.ok a) w' l') :
    wpR E Q me (Prog.pure a) P w l :=
  fun _ _ he => hP _ _ (hA.env he h)

end Rules

section Soundness

variable {Q₁ Q₂ : ObjectKey → Option StoredObject → Prop}
  {P₁ : Except Error α → World → Log → Prop} {P₂ : Except Error β → World → Log → Prop}

def Duo.Inv (E : Engine) (Q₁ Q₂ : ObjectKey → Option StoredObject → Prop)
    (P₁ : Except Error α → World → Log → Prop) (P₂ : Except Error β → World → Log → Prop)
    (d : Duo α β) : Prop :=
  Guar E Q₁ d.p₁ ∧ Guar E Q₂ d.p₂ ∧ wpR E Q₂ true d.p₁ P₁ { d.w₁ with store := d.store } d.log ∧
    wpR E Q₁ false d.p₂ P₂ { d.w₂ with store := d.store } d.log

theorem Duo.Step.inv {d d' : Duo α β} (hs : Duo.Step E d d') (h : Duo.Inv E Q₁ Q₂ P₁ P₂ d) :
    Duo.Inv E Q₁ Q₂ P₁ P₂ d' := by
  obtain ⟨g₁, g₂, h₁, h₂⟩ := h
  cases hs with
  | left =>
    cases g₁ with
    | call hc hk =>
      exact ⟨hk _, g₂, h₁ _ _ .refl, wpR_env h₂ (env_of_call hc _ _ _ _)⟩
  | right =>
    cases g₂ with
    | call hc hk =>
      exact ⟨g₁, hk _, wpR_env h₁ (env_of_call hc _ _ _ _), h₂ _ _ .refl⟩

theorem Duo.star_inv {d d' : Duo α β} (h : Relation.ReflTransGen (Duo.Step E) d d')
    (h0 : Duo.Inv E Q₁ Q₂ P₁ P₂ d) : Duo.Inv E Q₁ Q₂ P₁ P₂ d' := by
  induction h with
  | refl => exact h0
  | tail _ hs ih => exact hs.inv ih

/-- An interleaving that both clients finish ends where both views' postconditions hold. -/
theorem Duo.star_wpR {d d' : Duo α β} (h : Relation.ReflTransGen (Duo.Step E) d d')
    (h0 : Duo.Inv E Q₁ Q₂ P₁ P₂ d) {r₁ : Except Error α} {r₂ : Except Error β}
    (hr₁ : d'.p₁.outcome = some r₁) (hr₂ : d'.p₂.outcome = some r₂) :
    P₁ r₁ { d'.w₁ with store := d'.store } d'.log ∧ P₂ r₂ { d'.w₂ with store := d'.store } d'.log := by
  obtain ⟨-, -, h₁, h₂⟩ := Duo.star_inv h h0
  obtain ⟨s, l, p₁, w₁, p₂, w₂⟩ := d'
  cases p₁ <;> cases p₂ <;> cases hr₁ <;> cases hr₂ <;> exact ⟨h₁ _ _ .refl, h₂ _ _ .refl⟩

theorem Duo.star_wpR_left {d d' : Duo α β} (h : Relation.ReflTransGen (Duo.Step E) d d')
    (h0 : Duo.Inv E Q₁ Q₂ P₁ P₂ d) {r₁ : Except Error α} (hr₁ : d'.p₁.outcome = some r₁) :
    P₁ r₁ { d'.w₁ with store := d'.store } d'.log := by
  obtain ⟨-, -, h₁, -⟩ := Duo.star_inv h h0
  obtain ⟨s, l, p₁, w₁, p₂, w₂⟩ := d'
  cases p₁ <;> cases hr₁ <;> exact h₁ _ _ .refl

end Soundness

end DeltaGlider
