import DeltaGlider.Service.Get

/-! # The command-line front-end (`app/cli/main.py`: `put`, `get`, `verify`)

`put` builds the CLI's `Leaf(bucket, prefix)`, which src/ does not contain, as a `DeltaSpace`. -/

namespace DeltaGlider

def sliceFrom (s : String) (n : Nat) : String := ⟨s.data.drop n⟩

def splitOnceSlash (s : String) : List String :=
  match s.data.span (· ≠ '/') with
  | (a, _ :: r) => [⟨a⟩, ⟨r⟩]
  | (a, []) => [⟨a⟩]

def pathStem (s : String) : String :=
  let name := pathName s
  match lastIndexOf ['.'] name.data with
  | some i => if 0 < i ∧ i < name.length - 1 then ⟨name.data.take i⟩ else name
  | none => name

section Strings

variable {b n : String}

theorem sliceFrom_s3 (x : String) : sliceFrom ("s3://" ++ x) 5 = x := rfl

theorem splitOnceSlash_append (hb : '/' ∉ b.data) (k : String) :
    splitOnceSlash (b ++ "/" ++ k) = [b, k] := by
  have hp : ∀ c ∈ b.data, decide (c ≠ '/') = true := fun c hc =>
    decide_eq_true fun h => hb (h ▸ hc)
  have hd : (b ++ "/" ++ k).data = b.data ++ '/' :: k.data := by simp
  rw [splitOnceSlash, hd, List.span_eq_take_drop, List.takeWhile_append_of_pos hp,
    List.dropWhile_append_of_pos hp]
  simp

theorem splitOnceSlash_of_not_mem (hb : '/' ∉ b.data) : splitOnceSlash b = [b] := by
  have hp : ∀ c ∈ b.data, decide (c ≠ '/') = true := fun c hc =>
    decide_eq_true fun h => hb (h ▸ hc)
  rw [splitOnceSlash, List.span_eq_take_drop, List.takeWhile_eq_self_iff.2 hp,
    List.dropWhile_eq_nil_iff.2 hp]

theorem dropWhile_slash_reverse (hb : '/' ∉ b.data) :
    b.data.reverse.dropWhile (· = '/') = b.data.reverse := by
  rcases h : b.data.reverse with _ | ⟨c, t⟩
  · rfl
  · have hc : c ∈ b.data := List.mem_reverse.1 (h ▸ List.mem_cons_self c t)
    exact List.dropWhile_cons_of_neg (by simpa using fun e : c = '/' => hb (e ▸ hc))

theorem rstripSlash_append {p : String} (hb : '/' ∉ b.data) (hp : rstripSlash p = p) :
    rstripSlash (b ++ "/" ++ p) = if p = "" then b else b ++ "/" ++ p := by
  have hd : (b ++ "/" ++ p).data.reverse = p.data.reverse ++ '/' :: b.data.reverse := by simp
  split
  · subst p
    simp [rstripSlash, hd, dropWhile_slash_reverse hb]
  · rename_i h0
    have h1 : p.data.reverse.dropWhile (· = '/') = p.data.reverse := by
      simpa [rstripSlash] using congrArg (fun s : String => s.data.reverse) hp
    have hne : p.data.reverse ≠ [] := by simpa using fun h => h0 (String.ext h)
    simpa [rstripSlash, hd, List.dropWhile_append, h1, hne] using String.ext (by simp)

theorem pathName_append_slash (p : String) (hn : '/' ∉ n.data) (h0 : n ≠ "") (h1 : n ≠ ".") :
    pathName (p ++ "/" ++ n) = n := by
  have hd : (p ++ "/" ++ n).data = p.data ++ '/' :: n.data := by simp
  rw [pathName, splitSlash, hd, splitOn_append_slash _ _ hn, List.map_append, List.filter_append]
  simp [h0, h1]

theorem pathName_of_name (hn : '/' ∉ n.data) (h0 : n ≠ "") (h1 : n ≠ ".") : pathName n = n := by
  have hs : n.data.splitOn '/' = [n.data] :=
    List.splitOnP_eq_single _ _ fun x hx h => hn (by simpa using (beq_iff_eq.1 h) ▸ hx)
  simp [pathName, splitSlash, hs, h0, h1]

theorem DeltaSpace.pathName_directKey (ds : DeltaSpace) (hn : '/' ∉ n.data) (h0 : n ≠ "")
    (h1 : n ≠ ".") : pathName (ds.directKey n) = n := by
  unfold DeltaSpace.directKey; split
  exacts [pathName_append_slash _ hn h0 h1, pathName_of_name hn h0 h1]

theorem lastIndexOf_append_of_eq_some {sep q : List Char} {j : Nat} (h : lastIndexOf sep q = some j) :
    ∀ p : List Char, lastIndexOf sep (p ++ q) = some (p.length + j)
  | [] => by simpa using h
  | c :: p => by simp [lastIndexOf, lastIndexOf_append_of_eq_some h p, Nat.add_right_comm]

theorem pathStem_of_pathName {s : String} (h : pathName s = n ++ ".delta") (h0 : n ≠ "") :
    pathStem s = n := by
  have hl : lastIndexOf ['.'] (n ++ ".delta").data = some n.data.length := by
    simpa using lastIndexOf_append_of_eq_some
      (show lastIndexOf ['.'] ".delta".data = some 0 from rfl) n.data
  have hpos : 0 < n.data.length := List.length_pos.2 fun h => h0 (String.ext h)
  unfold pathStem
  rw [h]
  dsimp only
  rw [hl]
  dsimp only
  have hlen : (n ++ ".delta").length = n.data.length + 6 := by rw [String.length_append]; rfl
  rw [if_pos ⟨hpos, by omega⟩]
  simp

theorem DeltaSpace.deltaKey_eq_directKey_append (ds : DeltaSpace) (n : String) :
    ds.deltaKey n = ds.directKey n ++ ".delta" := by
  unfold DeltaSpace.deltaKey DeltaSpace.directKey; split <;> simp [String.append_assoc]

theorem DeltaSpace.deltaKey_ne_directKey (ds : DeltaSpace) (hnd : endswith n ".delta" = false) :
    ds.deltaKey n ≠ ds.directKey n := fun e => by
  have he := congrArg (endswith · ".delta") e
  simp only [ds.deltaKey_eq, ds.endswith_directKey _ (t := ".delta") (by decide), endswith_append,
    hnd] at he
  cases he

theorem eq_reference_of_endswith {a : String} (hn : '/' ∉ n.data)
    (h : endswith (a ++ "/" ++ n) "/reference.bin" = true) : n = "reference.bin" := by
  have hd : (a ++ "/" ++ n).data = a.data ++ '/' :: n.data := by simp
  have hr : "/reference.bin".data = '/' :: "reference.bin".data := rfl
  rw [endswith_iff, hd] at h
  rcases List.suffix_or_suffix_of_suffix h (List.suffix_append _ _) with h' | h' <;>
    rw [hr, List.suffix_cons_iff] at h'
  · rcases h' with e | e
    · exact String.ext (List.cons_injective e).symm
    · exact absurd (e.subset (List.mem_cons_self _ _)) hn
  · rcases h' with e | e
    · exact String.ext (List.cons_injective e)
    · exact absurd (e.subset (List.mem_cons_self _ _)) (by decide)

theorem DeltaSpace.not_isReferenceKey_directKey (ds : DeltaSpace) (hn : '/' ∉ n.data)
    (hr : n ≠ "reference.bin") : ¬IsReferenceKey (ds.directKey n) := by
  unfold DeltaSpace.directKey; split
  · rintro (h | h)
    · exact absurd (congrArg String.data h ▸ (by simp : '/' ∈ (ds.keyPrefix ++ "/" ++ n).data))
        (by decide)
    · exact hr (eq_reference_of_endswith hn h)
  · rintro (h | h)
    · exact hr h
    · exact hn ((endswith_iff.1 h).subset (by decide))

end Strings

namespace Cli

inductive Echo where
  | out (line : String)
  | err (line : String)
  | putSummary (summary : PutSummary)
  | verifyResult (result : VerifyResult)
  deriving DecidableEq, Repr

structure Outcome where
  echoes : List Echo
  exitCode : Nat
  deriving DecidableEq, Repr

def invalidUrl (s3Url : String) : Outcome := ⟨[.err ("Error: Invalid S3 URL: " ++ s3Url)], 1⟩

def putTarget (s3Url : String) : DeltaSpace :=
  let parts := splitOnceSlash (rstripSlash (sliceFrom s3Url 5))
  ⟨parts.headD "", parts.getD 1 ""⟩

def objectTarget (s3Url : String) : Option (String × String) :=
  match splitOnceSlash (sliceFrom s3Url 5) with
  | [bucket, key] => some (bucket, key)
  | _ => none

def put (svc : DeltaService) (file : LocalFile) (s3Url : String) : Prog Outcome :=
  if !startswith s3Url "s3://" then pure (invalidUrl s3Url)
  else
    tryCatch (do
        let summary ← svc.put file (putTarget s3Url) none
        pure ⟨[.putSummary summary], 0⟩)
      fun e => pure ⟨[.err ("Error: " ++ e.message)], 1⟩

/-- The existence check of `get`: the key as given when an object is there, else, for a key not
ending in `.delta`, the key with `.delta` appended when that object is there; with the line
printed, or the error line the command exits with. -/
def findKey (bucket key : String) : Prog (Except String (String × String)) := do
  let objHead ← Storage.head ⟨bucket, key⟩
  if objHead.isSome then
    pure (.ok (key, "Found file: s3://" ++ bucket ++ "/" ++ key))
  else if !endswith key ".delta" then
    let deltaKey := key ++ ".delta"
    let deltaHead ← Storage.head ⟨bucket, deltaKey⟩
    if deltaHead.isSome then
      pure (.ok (deltaKey, "Found delta file: s3://" ++ bucket ++ "/" ++ deltaKey))
    else
      pure (.error ("Error: File not found: s3://" ++ bucket ++ "/" ++ key ++ " (also tried .delta)"))
  else
    pure (.error ("Error: File not found: s3://" ++ bucket ++ "/" ++ key))

def defaultOutput (key : String) : String :=
  if endswith key ".delta" then pathStem key else pathName key

def get (s3Url : String) (output : Option String) : Prog Outcome :=
  if !startswith s3Url "s3://" then pure (invalidUrl s3Url)
  else
    match objectTarget s3Url with
    | none => pure (invalidUrl s3Url)
    | some (bucket, key) => do
      let found ← tryCatch (findKey bucket key) fun _ =>
        pure (.ok (key, "Warning: Could not check file existence, proceeding with: s3://" ++
          bucket ++ "/" ++ key))
      match found with
      | .error line => pure ⟨[.err line], 1⟩
      | .ok (key, line) =>
        let output := output.getD (defaultOutput key)
        tryCatch (do
            DeltaService.get ⟨bucket, key⟩ (.path (.user output))
            pure ⟨[.out line, .out ("Successfully retrieved: " ++ output)], 0⟩)
          fun e => pure ⟨[.out line, .err ("Error: " ++ e.message)], 1⟩

def verify (s3Url : String) : Prog Outcome :=
  if !startswith s3Url "s3://" then pure (invalidUrl s3Url)
  else
    match objectTarget s3Url with
    | none => pure (invalidUrl s3Url)
    | some (bucket, key) =>
      tryCatch (do
          let result ← DeltaService.verify ⟨bucket, key⟩
          pure ⟨[.verifyResult result], if result.valid then 0 else 1⟩)
        fun e => pure ⟨[.err ("Error: " ++ e.message)], 1⟩

/-- The key `get`'s existence check settles on, read off the store: the key as given when an
object is there, else the key with `.delta` appended when it does not end in `.delta` and that
object is there. -/
def resolvedKey (s : Store) (bucket key : String) : Option String :=
  if (s.lookup ⟨bucket, key⟩).isSome then some key
  else if !endswith key ".delta" && (s.lookup ⟨bucket, key ++ ".delta"⟩).isSome then
    some (key ++ ".delta")
  else none

section Keys

variable {n : String}

theorem defaultOutput_directKey (ds : DeltaSpace) (hn : '/' ∉ n.data) (h0 : n ≠ "") (h1 : n ≠ ".")
    (hd : endswith n ".delta" = false) : defaultOutput (ds.directKey n) = n := by
  rw [defaultOutput, ds.endswith_directKey _ (by decide), hd, if_neg Bool.false_ne_true,
    ds.pathName_directKey hn h0 h1]

theorem defaultOutput_deltaKey (ds : DeltaSpace) (hn : '/' ∉ n.data) (h0 : n ≠ "") :
    defaultOutput (ds.deltaKey n) = n := by
  have hl : (n ++ ".delta").length = n.length + 6 := by rw [String.length_append]; rfl
  have hne : ∀ t : String, t.length < 6 → n ++ ".delta" ≠ t := fun t ht h => by
    rw [h] at hl; omega
  have hn' : '/' ∉ (n ++ ".delta").data := by simpa using hn
  rw [defaultOutput, ds.deltaKey_eq, ds.endswith_directKey _ (by decide), if_pos (endswith_append _ _)]
  exact pathStem_of_pathName (ds.pathName_directKey hn' (hne "" (by decide)) (hne "." (by decide))) h0

example : defaultOutput "rel/app.zip.delta" = "app.zip" ∧ defaultOutput "rel/notes.delta" = "notes" :=
  by decide

theorem resolvedKey_eq_some {s : Store} {b k R : String} (h : resolvedKey s b k = some R) :
    R = k ∨ R = k ++ ".delta" := by
  unfold resolvedKey at h
  split at h
  · exact .inl (Option.some_inj.1 h).symm
  · split at h
    · exact .inr (Option.some_inj.1 h).symm
    · cases h

theorem not_isReferenceKey_resolvedKey {s : Store} {b k R : String} (hK : ¬IsReferenceKey k)
    (h : resolvedKey s b k = some R) : ¬IsReferenceKey R := by
  rcases resolvedKey_eq_some h with rfl | rfl
  exacts [hK, not_isReferenceKey_of_delta (endswith_append _ _)]

end Keys

section Runs

variable {E : Engine} {w : World} {b k : String}

theorem objectTarget_url (hb : '/' ∉ b.data) (k : String) :
    objectTarget ("s3://" ++ b ++ "/" ++ k) = some (b, k) := by
  rw [objectTarget, String.append_assoc, String.append_assoc, sliceFrom_s3, ← String.append_assoc,
    splitOnceSlash_append hb]

theorem putTarget_url {p : String} (hb : '/' ∉ b.data) (hp : rstripSlash p = p) :
    putTarget ("s3://" ++ b ++ "/" ++ p) = ⟨b, p⟩ := by
  rw [putTarget, String.append_assoc, String.append_assoc, sliceFrom_s3, ← String.append_assoc,
    rstripSlash_append hb hp]
  split
  · subst p; simp [splitOnceSlash_of_not_mem hb]
  · simp [splitOnceSlash_append hb]

theorem startswith_url (x : String) : startswith ("s3://" ++ x) "s3://" = true := startswith_append _ _

theorem run_findKey_some {R : String} (hR : resolvedKey w.store b k = some R) :
    ∃ line, run E (findKey b k) w = (.ok (.ok (R, line)), w) := by
  unfold resolvedKey at hR
  rcases h1 : w.store.lookup ⟨b, k⟩ with _ | o
  · cases hk : endswith k ".delta" <;>
      rcases h2 : w.store.lookup ⟨b, k ++ ".delta"⟩ with _ | o' <;> simp [h1, hk, h2] at hR
    subst hR
    exact ⟨_, by simp [findKey, run_bind, h1, hk, h2]; rfl⟩
  · simp only [h1, Option.isSome_some, if_true, Option.some_inj] at hR
    subst hR
    exact ⟨_, by simp [findKey, run_bind, h1]; rfl⟩

theorem run_findKey_none (hR : resolvedKey w.store b k = none) :
    ∃ line, run E (findKey b k) w = (.ok (.error line), w) := by
  unfold resolvedKey at hR
  rcases h1 : w.store.lookup ⟨b, k⟩ with _ | o
  · cases hk : endswith k ".delta"
    · rcases h2 : w.store.lookup ⟨b, k ++ ".delta"⟩ with _ | o' <;> simp [h1, hk, h2] at hR
      exact ⟨_, by simp [findKey, run_bind, h1, hk, h2]; rfl⟩
    · exact ⟨_, by simp [findKey, run_bind, h1, hk]; rfl⟩
  · simp [h1] at hR

/-- `get` of `s3://b/k` with no output given, when the existence check settles on `R`: the
service's `get` of `R` into `R`'s default output, reported with exit status 0 when it returns
and 1 when it raises. -/
theorem run_get_resolved {R : String} (hb : '/' ∉ b.data) (hR : resolvedKey w.store b k = some R) :
    ∃ line, run E (get ("s3://" ++ b ++ "/" ++ k) none) w =
      match run E (DeltaService.get ⟨b, R⟩ (.path (.user (defaultOutput R)))) w with
      | (.ok (), w') => (.ok ⟨[.out line, .out ("Successfully retrieved: " ++ defaultOutput R)], 0⟩, w')
      | (.error e, w') => (.ok ⟨[.out line, .err ("Error: " ++ e.message)], 1⟩, w') := by
  obtain ⟨line, hf⟩ := run_findKey_some (E := E) hR
  refine ⟨line, ?_⟩
  rw [get, String.append_assoc, String.append_assoc, startswith_url, ← String.append_assoc,
    ← String.append_assoc, objectTarget_url hb]
  simp only [Bool.not_true, Bool.false_eq_true, if_false, run_bind, run_tryCatch, hf,
    Option.getD_none]
  rcases run E (DeltaService.get ⟨b, R⟩ (.path (.user (defaultOutput R)))) w with ⟨_ | _, w'⟩ <;>
    rfl

theorem run_get_unresolved (hb : '/' ∉ b.data) (hR : resolvedKey w.store b k = none) :
    ∃ line, run E (get ("s3://" ++ b ++ "/" ++ k) none) w = (.ok ⟨[.err line], 1⟩, w) := by
  obtain ⟨line, hf⟩ := run_findKey_none (E := E) hR
  refine ⟨line, ?_⟩
  rw [get, String.append_assoc, String.append_assoc, startswith_url, ← String.append_assoc,
    ← String.append_assoc, objectTarget_url hb]
  simp only [Bool.not_true, Bool.false_eq_true, if_false, run_bind, run_tryCatch, hf]
  rfl

theorem run_put_url (svc : DeltaService) (f : LocalFile) {p : String} (hb : '/' ∉ b.data)
    (hp : rstripSlash p = p) :
    run E (put svc f ("s3://" ++ b ++ "/" ++ p)) w =
      match run E (svc.put f ⟨b, p⟩ none) w with
      | (.ok s, w') => (.ok ⟨[.putSummary s], 0⟩, w')
      | (.error e, w') => (.ok ⟨[.err ("Error: " ++ e.message)], 1⟩, w') := by
  rw [put, String.append_assoc, String.append_assoc, startswith_url, ← String.append_assoc,
    ← String.append_assoc, putTarget_url hb hp]
  simp only [Bool.not_true, Bool.false_eq_true, if_false, run_bind, run_tryCatch]
  rcases run E (svc.put f ⟨b, p⟩ none) w with ⟨_ | _, w'⟩ <;> rfl

end Runs

end Cli

end DeltaGlider
