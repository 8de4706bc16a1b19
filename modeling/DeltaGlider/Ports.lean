import DeltaGlider.Models
import Mathlib.Data.List.AList
import Mathlib.Data.List.Sort

/-! # Ports and the programs that call them

A service operation is a `Prog`, a tree of port calls; `run` executes it when no call fails. The
store follows S3: unique keys per bucket, listings in key order. -/

namespace DeltaGlider

structure StoredObject where
  data : Bytes
  metadata : Metadata
  deriving DecidableEq, Repr

structure ObjectHead where
  key : String
  size : Nat
  metadata : Metadata
  deriving DecidableEq, Repr

abbrev Store := AList (fun _ : ObjectKey => StoredObject)

def StoredObject.head (k : ObjectKey) (o : StoredObject) : ObjectHead :=
  ⟨k.key, o.data.length, o.metadata⟩

@[simp] theorem StoredObject.head_metadata (k : ObjectKey) (o : StoredObject) :
    (o.head k).metadata = o.metadata := rfl

/-- `list(bucket/prefix)`: the objects of the bucket whose key starts with the prefix, in key
order (code point order, which is the byte order of UTF-8). -/
def listObjects (s : Store) (bucket keyPrefix : String) : List ObjectHead :=
  ((s.entries.filter fun e => e.1.bucket = bucket ∧ startswith e.1.key keyPrefix).map
    fun e => e.2.head e.1).insertionSort fun a b => a.key.data ≤ b.key.data

theorem mem_listObjects {s : Store} {k : ObjectKey} {o : StoredObject} {keyPrefix : String}
    (h : s.lookup k = some o) (hs : startswith k.key keyPrefix = true) :
    o.head k ∈ listObjects s k.bucket keyPrefix :=
  (List.perm_insertionSort _ _).mem_iff.2 <|
    List.mem_map.2 ⟨⟨k, o⟩, List.mem_filter.2 ⟨AList.mem_lookup_iff.1 h, by simp [hs]⟩, rfl⟩

theorem mem_listObjects_iff {s : Store} {bucket keyPrefix : String} {obj : ObjectHead} :
    obj ∈ listObjects s bucket keyPrefix ↔ ∃ k o, s.lookup k = some o ∧ k.bucket = bucket ∧
      startswith k.key keyPrefix = true ∧ obj = o.head k := by
  rw [listObjects, (List.perm_insertionSort _ _).mem_iff, List.mem_map]
  constructor
  · rintro ⟨⟨k, o⟩, hmem, rfl⟩
    rw [List.mem_filter, decide_eq_true_iff] at hmem
    exact ⟨k, o, AList.mem_lookup_iff.2 hmem.1, hmem.2.1, hmem.2.2, rfl⟩
  · rintro ⟨k, o, h, hb, hs, rfl⟩
    exact ⟨⟨k, o⟩, List.mem_filter.2 ⟨AList.mem_lookup_iff.1 h, by simp [hb, hs]⟩, rfl⟩

theorem nodup_listObjects_keys (s : Store) (bucket keyPrefix : String) :
    ((listObjects s bucket keyPrefix).map (·.key)).Nodup := by
  rw [listObjects, ((List.perm_insertionSort _ _).map _).nodup_iff, List.map_map]
  have hk : (s.entries.filter fun e =>
      decide (e.1.bucket = bucket ∧ startswith e.1.key keyPrefix = true)).NodupKeys :=
    s.nodupKeys.sublist (List.filter_sublist _)
  have e : ((fun h : ObjectHead => h.key) ∘ fun e : Sigma (fun _ : ObjectKey => StoredObject) =>
      e.2.head e.1) = ObjectKey.key ∘ Sigma.fst := rfl
  rw [e, ← List.map_map]
  refine List.Nodup.map_on (fun x hx y hy hxy => ?_) hk
  obtain ⟨ex, hex, rfl⟩ := List.mem_map.1 hx
  obtain ⟨ey, hey, rfl⟩ := List.mem_map.1 hy
  have hbx := of_decide_eq_true (List.mem_filter.1 hex).2
  have hby := of_decide_eq_true (List.mem_filter.1 hey).2
  exact congrArg₂ ObjectKey.mk (hbx.1.trans hby.1.symm) hxy

abbrev Cache := AList (fun _ : String × String => Bytes)

inductive LocalPath where
  | user (name : String)
  | scratch (dir : Nat) (leaf : String)
  deriving DecidableEq, Repr

inductive Sink where
  | path (p : LocalPath)
  | stream
  deriving DecidableEq, Repr

abbrev Files := AList (fun _ : LocalPath => Bytes)

structure World where
  store : Store
  cache : Cache
  files : Files
  stream : Bytes
  temps : List Nat
  nextTemp : Nat
  clock : Int
  uuids : Nat

/-- The external collaborators behind the ports: the diff engine and SHA-256. -/
structure Engine where
  encode : Bytes → Bytes → Option Bytes
  decode : Bytes → Bytes → Option Bytes
  sha256 : Bytes → String

inductive Call where
  | head (k : ObjectKey)
  | get (k : ObjectKey)
  | put (k : ObjectKey) (data : Bytes) (metadata : Metadata)
  | list (bucket keyPrefix : String)
  | delete (k : ObjectKey)
  | hasRef (bucket leaf sha : String)
  | writeRef (bucket leaf : String) (src : Bytes)
  | getValidatedRef (bucket leaf sha : String)
  | evict (bucket leaf : String)
  | encode (ref target : Bytes)
  | decode (ref delta : Bytes)
  | sha256 (data : Bytes)
  | now
  | uuid4
  | mkTemp
  | rmTemp (t : Nat)
  | readFile (p : LocalPath)
  | writeFile (p : LocalPath) (data : Bytes)
  | writeStream (data : Bytes)

def Call.Ret : Call → Type
  | .head _ => Option ObjectHead
  | .get _ | .getValidatedRef .. | .encode .. | .decode .. | .readFile _ => Bytes
  | .list .. => List ObjectHead
  | .hasRef .. => Bool
  | .sha256 _ | .uuid4 => String
  | .now => Int
  | .mkTemp => Nat
  | .put .. | .delete _ | .writeRef .. | .evict .. | .rmTemp _ | .writeFile .. | .writeStream _ =>
    Unit

def cacheHas (E : Engine) (c : Cache) (bucket leaf sha : String) : Bool :=
  match c.lookup (bucket, leaf) with
  | some d => E.sha256 d = sha
  | none => false

theorem cacheHas_iff {E : Engine} {c : Cache} {b l sha : String} :
    cacheHas E c b l sha = true ↔ ∃ d, c.lookup (b, l) = some d ∧ E.sha256 d = sha := by
  unfold cacheHas; split <;> simp_all

/-- Removing a temporary directory removes the files under it. -/
def removeScratch (fs : Files) (t : Nat) : Files :=
  (fs.keys.filter fun
    | .scratch d _ => d == t
    | .user _ => false).foldl (fun fs p => fs.erase p) fs

theorem lookup_foldl_erase {q : LocalPath} :
    ∀ (ps : List LocalPath) (fs : Files), q ∉ ps →
      (ps.foldl (fun fs p => fs.erase p) fs).lookup q = fs.lookup q
  | [], _, _ => rfl
  | p :: ps, fs, h => by
    rw [List.mem_cons, not_or] at h
    rw [List.foldl_cons, lookup_foldl_erase ps _ h.2, AList.lookup_erase_ne h.1]

@[simp] theorem lookup_removeScratch_user (fs : Files) (t : Nat) (name : String) :
    (removeScratch fs t).lookup (.user name) = fs.lookup (.user name) :=
  lookup_foldl_erase _ _ (by simp)

@[simp] theorem lookup_removeScratch_ne (fs : Files) {t d : Nat} (h : d ≠ t) (name : String) :
    (removeScratch fs t).lookup (.scratch d name) = fs.lookup (.scratch d name) :=
  lookup_foldl_erase _ _ (by simp [h])

/-- A path no temporary directory numbered `t` or later holds: a user's file, or one under an
older directory. -/
def LocalPath.Before (t : Nat) : LocalPath → Prop
  | .user _ => True
  | .scratch d _ => d < t

theorem LocalPath.Before.mono {q : LocalPath} {t t' : Nat} (hq : q.Before t) (h : t ≤ t') :
    q.Before t' := by
  cases q with
  | user => trivial
  | scratch d => exact Nat.lt_of_lt_of_le hq h

theorem lookup_removeScratch_of_before (fs : Files) {t : Nat} {q : LocalPath} (hq : q.Before t) :
    (removeScratch fs t).lookup q = fs.lookup q := by
  cases q with
  | user name => exact lookup_removeScratch_user fs t name
  | scratch d name => exact lookup_removeScratch_ne fs (Nat.ne_of_lt hq) name

def uuidHex (n : Nat) : String := (Nat.toDigits 16 n).asString

def Call.interp (E : Engine) : (c : Call) → World → Except Error c.Ret × World
  | .head k, w => (.ok ((w.store.lookup k).map (·.head k)), w)
  | .get k, w =>
    match w.store.lookup k with
    | some o => (.ok o.data, w)
    | none => (.error (.storage ("NoSuchKey: " ++ k.key)), w)
  | .put k data md, w => (.ok (), { w with store := w.store.insert k ⟨data, md⟩ })
  | .list b p, w => (.ok (listObjects w.store b p), w)
  | .delete k, w => (.ok (), { w with store := w.store.erase k })
  | .hasRef b l sha, w => (.ok (cacheHas E w.cache b l sha), w)
  | .writeRef b l src, w => (.ok (), { w with cache := w.cache.insert (b, l) src })
  | .getValidatedRef b l sha, w =>
    match w.cache.lookup (b, l) with
    | some d =>
      if E.sha256 d = sha then (.ok d, w) else (.error (.cache ("Cache corruption: " ++ sha)), w)
    | none => (.error (.cache ("Cache miss: " ++ sha)), w)
  | .evict b l, w => (.ok (), { w with cache := w.cache.erase (b, l) })
  | .encode r t, w =>
    match E.encode r t with
    | some d => (.ok d, w)
    | none => (.error (.diffEncode "xdelta3 encode failed"), w)
  | .decode r d, w =>
    match E.decode r d with
    | some t => (.ok t, w)
    | none => (.error (.diffDecode "xdelta3 decode failed"), w)
  | .sha256 d, w => (.ok (E.sha256 d), w)
  | .now, w => (.ok w.clock, w)
  | .uuid4, w => (.ok (uuidHex w.uuids), { w with uuids := w.uuids + 1 })
  | .mkTemp, w =>
    (.ok w.nextTemp, { w with temps := w.nextTemp :: w.temps, nextTemp := w.nextTemp + 1 })
  | .rmTemp t, w =>
    (.ok (), { w with temps := w.temps.erase t, files := removeScratch w.files t })
  | .readFile p, w =>
    match w.files.lookup p with
    | some d => (.ok d, w)
    | none => (.error (.os "No such file or directory"), w)
  | .writeFile p d, w => (.ok (), { w with files := w.files.insert p d })
  | .writeStream d, w => (.ok (), { w with stream := w.stream ++ d })

inductive Prog (α : Type) where
  | pure (a : α)
  | throw (e : Error)
  | call (c : Call) (k : Except Error c.Ret → Prog α)

namespace Prog

def bind : Prog α → (α → Prog β) → Prog β
  | .pure a, f => f a
  | .throw e, _ => .throw e
  | .call c k, f => .call c fun r => (k r).bind f

def tryCatch : Prog α → (Error → Prog α) → Prog α
  | .pure a, _ => .pure a
  | .throw e, h => h e
  | .call c k, h => .call c fun r => (k r).tryCatch h

instance : Monad Prog where
  pure := .pure
  bind := bind

instance : MonadExceptOf Error Prog where
  throw := .throw
  tryCatch := tryCatch

def perform (c : Call) : Prog c.Ret :=
  .call c fun
    | .ok v => .pure v
    | .error e => .throw e

def ofExcept : Except Error α → Prog α
  | .ok a => .pure a
  | .error e => .throw e

def tryFinally : Prog α → Prog Unit → Prog α
  | .pure a, cleanup => cleanup.bind fun _ => .pure a
  | .throw e, cleanup => cleanup.bind fun _ => .throw e
  | .call c k, cleanup => .call c fun r => (k r).tryFinally cleanup

end Prog

namespace Storage
def head (k : ObjectKey) : Prog (Option ObjectHead) := Prog.perform (.head k)
def get (k : ObjectKey) : Prog Bytes := Prog.perform (.get k)
def put (k : ObjectKey) (data : Bytes) (md : Metadata) : Prog Unit := Prog.perform (.put k data md)
def list (bucket keyPrefix : String) : Prog (List ObjectHead) := Prog.perform (.list bucket keyPrefix)
def delete (k : ObjectKey) : Prog Unit := Prog.perform (.delete k)
end Storage

namespace CachePort
def hasRef (bucket leaf sha : String) : Prog Bool := Prog.perform (.hasRef bucket leaf sha)
def writeRef (bucket leaf : String) (src : Bytes) : Prog Unit := Prog.perform (.writeRef bucket leaf src)
def getValidatedRef (bucket leaf sha : String) : Prog Bytes :=
  Prog.perform (.getValidatedRef bucket leaf sha)
def evict (bucket leaf : String) : Prog Unit := Prog.perform (.evict bucket leaf)
end CachePort

namespace Diff
def encode (ref target : Bytes) : Prog Bytes := Prog.perform (.encode ref target)
def decode (ref delta : Bytes) : Prog Bytes := Prog.perform (.decode ref delta)
end Diff

def Hasher.sha256 (data : Bytes) : Prog String := Prog.perform (.sha256 data)
def Clock.now : Prog Int := Prog.perform .now
def uuid4 : Prog String := Prog.perform .uuid4
def mkTemp : Prog Nat := Prog.perform .mkTemp
def rmTemp (t : Nat) : Prog Unit := Prog.perform (.rmTemp t)
def readFile (p : LocalPath) : Prog Bytes := Prog.perform (.readFile p)
def writeFile (p : LocalPath) (data : Bytes) : Prog Unit := Prog.perform (.writeFile p data)
def writeStream (data : Bytes) : Prog Unit := Prog.perform (.writeStream data)

/-- `with tempfile.NamedTemporaryFile()` or `tempfile.TemporaryDirectory()`: removed on every
exit. -/
def withTemp (body : Nat → Prog α) : Prog α := do
  let t ← mkTemp
  Prog.tryFinally (body t) (rmTemp t)

/-- Executes a program when no port call fails. -/
def run (E : Engine) : Prog α → World → Except Error α × World
  | .pure a, w => (.ok a, w)
  | .throw e, w => (.error e, w)
  | .call c k, w => run E (k (c.interp E w).1) (c.interp E w).2

/-- The outcomes of a program when any port call may raise instead, leaving the world as it
was. -/
inductive Exec (E : Engine) : Prog α → World → Except Error α → World → Prop where
  | pure (a : α) (w : World) : Exec E (.pure a) w (.ok a) w
  | throw (e : Error) (w : World) : Exec E (.throw e) w (.error e) w
  | call {c k w r w'} : Exec E (k (c.interp E w).1) (c.interp E w).2 r w' → Exec E (.call c k) w r w'
  | fault {c k w r w'} (e : Error) : Exec E (k (.error e)) w r w' → Exec E (.call c k) w r w'

end DeltaGlider
