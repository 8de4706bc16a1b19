import DeltaGlider.Stats.Aggregate

/-! # Paginated listing and `get_bucket_stats` (`client_operations/stats.py`)

The `list_objects` port is modelled by its response to each numbered call, so a run may meet any
pattern of failures. -/

namespace DeltaGlider

namespace Stats

structure ListPage where
  objects : List RawObject
  isTruncated : Bool
  nextContinuationToken : Option String
  deriving DecidableEq, Repr

abbrev ListObjects := Nat → Option String → Except Error ListPage

/-- The `while` loop from the call numbered `iteration`, with `fuel` calls left before
`iteration_count > max_iterations`. -/
def paginate (listObjects : ListObjects) (bucket : String) :
    Nat → Nat → Option String → List RawObject → Except Error (List RawObject)
  | 0, _, _, rawObjects => .ok rawObjects
  | fuel + 1, iteration, startAfter, rawObjects =>
    match listObjects iteration startAfter with
    | .error e =>
      if rawObjects.isEmpty then
        .error (.runtime ("Failed to list objects in bucket '" ++ bucket ++ "': " ++ e.message))
      else .ok rawObjects
    | .ok response =>
      let rawObjects := rawObjects ++ response.objects
      if !response.isTruncated then .ok rawObjects
      else
        match response.nextContinuationToken with
        | some startAfter =>
          if startAfter = "" then .ok rawObjects
          else paginate listObjects bucket fuel (iteration + 1) (some startAfter) rawObjects
        | none => .ok rawObjects

def collectObjectsWithPagination (listObjects : ListObjects) (bucket : String)
    (maxIterations : Nat) : Except Error (List RawObject) :=
  match paginate listObjects bucket maxIterations 0 none [] with
  | .ok rawObjects => .ok rawObjects
  | .error e =>
    .error (.runtime ("Failed to collect bucket statistics for '" ++ bucket ++ "': " ++ e.message))

/-- Phases 2 to 5 of `get_bucket_stats`, on the collected objects: `_fetch_delta_metadata` is a
parameter, called on the delta keys when `detailed_stats` is set. -/
def statsOfCollected (fetchDeltaMetadata : List String → MetadataMap) (bucket : String)
    (detailedStats : Bool) (rawObjects : List RawObject) : BucketStats :=
  let deltaKeys := (rawObjects.filter (endswith ·.key ".delta")).map (·.key)
  let metadataMap := if detailedStats ∧ deltaKeys ≠ [] then fetchDeltaMetadata deltaKeys else []
  calculateBucketStatistics (buildObjectInfoList rawObjects metadataMap) bucket

def emptyBucketStats (bucket : String) : BucketStats :=
  { bucket, objectCount := 0, totalSize := 0, compressedSize := 0, spaceSaved := 0,
    averageCompressionRatio := 0, deltaObjects := 0, directObjects := 0 }

def getBucketStats (listObjects : ListObjects) (fetchDeltaMetadata : List String → MetadataMap)
    (bucket : String) (detailedStats : Bool) : BucketStats :=
  match collectObjectsWithPagination listObjects bucket 10000 with
  | .ok rawObjects => statsOfCollected fetchDeltaMetadata bucket detailedStats rawObjects
  | .error _ => emptyBucketStats bucket

section Loop

variable {f : ListObjects} {m : Nat} {bucket : String}

/-- The states the loop reaches: the number of the next call, its `start_after`, and the objects
collected so far. -/
inductive Reaches (f : ListObjects) (m : Nat) : Nat → Option String → List RawObject → Prop
  | start : Reaches f m 0 none []
  | next {i t raw p t'} : Reaches f m i t raw → i < m → f i t = .ok p → p.isTruncated = true →
      p.nextContinuationToken = some t' → t' ≠ "" → Reaches f m (i + 1) (some t') (raw ++ p.objects)

inductive Exit (f : ListObjects) (m : Nat) (bucket : String) :
    Nat → Option String → List RawObject → Except Error (List RawObject) → Prop
  | cap {t raw} : Exit f m bucket m t raw (.ok raw)
  | failEmpty {i t e} : i < m → f i t = .error e →
      Exit f m bucket i t []
        (.error (.runtime ("Failed to list objects in bucket '" ++ bucket ++ "': " ++ e.message)))
  | failPartial {i t raw e} : i < m → f i t = .error e → raw ≠ [] → Exit f m bucket i t raw (.ok raw)
  | last {i t raw p} : i < m → f i t = .ok p →
      (p.isTruncated = false ∨ p.nextContinuationToken = none ∨ p.nextContinuationToken = some "") →
      Exit f m bucket i t raw (.ok (raw ++ p.objects))

theorem Reaches.le {i : Nat} {t : Option String} {raw : List RawObject} (h : Reaches f m i t raw) :
    i ≤ m := by
  cases h with
  | start => exact Nat.zero_le _
  | next _ hi => exact hi

theorem paginate_exit :
    ∀ (n i : Nat) (t : Option String) (raw : List RawObject), Reaches f m i t raw → i + n = m →
      ∃ j u raw', Reaches f m j u raw' ∧ Exit f m bucket j u raw' (paginate f bucket n i t raw)
  | 0, i, t, raw, hr, hn => ⟨i, t, raw, hr, by rw [← hn]; exact .cap⟩
  | n + 1, i, t, raw, hr, hn => by
    have hi : i < m := by omega
    unfold paginate
    rcases hf : f i t with e | p
    · by_cases he : raw = []
      · subst he; exact ⟨i, t, [], hr, .failEmpty hi hf⟩
      · simpa [he] using ⟨i, t, raw, hr, Exit.failPartial hi hf he⟩
    · rcases htr : p.isTruncated
      · exact ⟨i, t, raw, hr, by simpa [htr] using Exit.last hi hf (.inl htr)⟩
      rcases htok : p.nextContinuationToken with _ | t'
      · exact ⟨i, t, raw, hr, by simpa [htr, htok] using Exit.last hi hf (.inr (.inl htok))⟩
      by_cases he : t' = ""
      · subst he
        exact ⟨i, t, raw, hr, by simpa [htr, htok] using Exit.last hi hf (.inr (.inr htok))⟩
      · simpa [htr, htok, he] using
          paginate_exit n (i + 1) (some t') _ (.next hr hi hf htr htok he) (by omega)

theorem paginate_of_reaches {i : Nat} {t : Option String} {raw : List RawObject}
    (h : Reaches f m i t raw) : paginate f bucket m 0 none [] = paginate f bucket (m - i) i t raw := by
  induction h with
  | start => rfl
  | @next i t raw p t' _ hi hf htr htok he ih =>
    rw [ih, show m - i = (m - (i + 1)) + 1 by omega]
    simp [paginate, hf, htr, htok, he]

theorem paginate_congr {g : ListObjects} (hg : ∀ i < m, ∀ t, g i t = f i t) :
    ∀ (n i : Nat) (t : Option String) (raw : List RawObject), i + n ≤ m →
      paginate g bucket n i t raw = paginate f bucket n i t raw
  | 0, _, _, _, _ => rfl
  | n + 1, i, t, raw, hn => by
    simp only [paginate, hg i (by omega) t]
    split <;> try rfl
    split <;> try rfl
    split <;> try rfl
    split <;> [rfl; exact paginate_congr hg n (i + 1) _ _ (by omega)]

end Loop

/-! ## A `list_objects` that serves a listing -/

/-- A response of a server that lists `L` in order, read at the position `resume t` its
`start_after` token stands for: the next objects of `L`, at most 1000 of them, truncated exactly
when objects remain, with a token that resumes right after the page. -/
structure PageOf (L : List RawObject) (resume : Option String → Nat) (t : Option String)
    (p : ListPage) : Prop where
  objects : p.objects = (L.drop (resume t)).take p.objects.length
  length_le : p.objects.length ≤ 1000
  truncated_iff : p.isTruncated = true ↔ resume t + p.objects.length < L.length
  next : p.isTruncated = true →
    ∃ t', p.nextContinuationToken = some t' ∧ resume (some t') = resume t + p.objects.length

/-- `list_objects` serves `L`: every response that is not an exception is the page at its token,
and the first call starts at the beginning. -/
def ServesListing (L : List RawObject) (f : ListObjects) : Prop :=
  ∃ resume : Option String → Nat, resume none = 0 ∧ ∀ i t p, f i t = .ok p → PageOf L resume t p

section Serves

variable {L : List RawObject} {f : ListObjects} {m : Nat} {resume : Option String → Nat}

theorem PageOf.append {t : Option String} {p : ListPage} (hp : PageOf L resume t p) :
    L.take (resume t) ++ p.objects = L.take (resume t + p.objects.length) := by
  rw [List.take_add, ← hp.objects]

theorem Reaches.eq_take (h0 : resume none = 0) (hf : ∀ i t p, f i t = .ok p → PageOf L resume t p)
    {i : Nat} {t : Option String} {raw : List RawObject} (h : Reaches f m i t raw) :
    raw = L.take (resume t) := by
  induction h with
  | start => rw [h0, List.take_zero]
  | next _ _ hfp htr htok _ ih =>
    obtain ⟨t'', htok', hres⟩ := (hf _ _ _ hfp).next htr
    rw [htok, Option.some_inj] at htok'
    rw [ih, (hf _ _ _ hfp).append, htok', hres]

theorem Reaches.resume_eq (h0 : resume none = 0)
    (hf : ∀ i t p, f i t = .ok p → PageOf L resume t p)
    (hfull : ∀ i t p, f i t = .ok p → p.isTruncated = true → p.objects.length = 1000)
    {i : Nat} {t : Option String} {raw : List RawObject} (h : Reaches f m i t raw) :
    resume t = 1000 * i := by
  induction h with
  | start => exact h0
  | next _ _ hfp htr htok _ ih =>
    obtain ⟨t'', htok', hres⟩ := (hf _ _ _ hfp).next htr
    rw [htok, Option.some_inj] at htok'
    rw [htok', hres, ih, hfull _ _ _ hfp htr]
    omega

end Serves

def tokenPosition (t : Option String) : Nat := (t.map String.length).getD 0

def pageServer (L : List RawObject) (k : Nat) : ListObjects := fun _ t =>
  .ok { objects := (L.drop (tokenPosition t)).take k
        isTruncated := decide (tokenPosition t + k < L.length)
        nextContinuationToken :=
          if tokenPosition t + k < L.length then
            some ⟨List.replicate (tokenPosition t + k) 'x'⟩
          else none }

theorem pageServer_serves (L : List RawObject) {k : Nat} (hk : k ≤ 1000) :
    ServesListing L (pageServer L k) := by
  refine ⟨tokenPosition, rfl, fun _ t p hp => ?_⟩
  simp only [pageServer, Except.ok.injEq] at hp
  subst hp
  have hlen : ∀ i, ((L.drop i).take k).length = min k (L.length - i) := by simp
  refine ⟨?_, ?_, ?_, fun htr => ?_⟩ <;> dsimp only <;> generalize tokenPosition t = i at *
  · rw [hlen]
    by_cases h : k ≤ L.length - i
    · rw [Nat.min_eq_left h]
    · rw [Nat.min_eq_right (by omega), List.take_of_length_le (by simp; omega),
        List.take_of_length_le (by simp)]
  · rw [hlen]; omega
  · rw [decide_eq_true_iff, hlen]
    constructor <;> intro <;> omega
  · rw [decide_eq_true_iff] at htr
    refine ⟨_, if_pos htr, ?_⟩
    simp only [tokenPosition, Option.map_some', Option.getD_some, String.length,
      List.length_replicate, hlen]
    omega

theorem pageServer_full (L : List RawObject) {k : Nat} (hk : 0 < k) (i : Nat) (t : Option String)
    (p : ListPage) (hp : pageServer L k i t = .ok p) (htr : p.isTruncated = true) :
    p.objects.length = k ∧ p.nextContinuationToken ≠ some "" := by
  simp only [pageServer, Except.ok.injEq] at hp
  subst hp
  generalize tokenPosition t = i at *
  rw [decide_eq_true_iff] at htr
  refine ⟨by simp only [List.length_take, List.length_drop]; omega, fun h => ?_⟩
  rw [if_pos htr, Option.some_inj] at h
  have := congrArg String.length h
  simp only [String.length, List.length_replicate, List.length_nil] at this
  omega

end Stats

end DeltaGlider
