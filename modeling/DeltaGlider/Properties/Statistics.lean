import DeltaGlider.Stats.Collect

/-! # Bucket statistics against their aggregation -/

namespace DeltaGlider

namespace Stats

theorem sum_filter_map_perm {raw raw' : List RawObject} (hp : raw'.Perm raw) (p : RawObject → Bool)
    {β : Type} [AddCommMonoid β] (f : RawObject → β) :
    ((raw'.filter p).map f).sum = ((raw.filter p).map f).sum :=
  ((hp.filter p).map f).sum_eq

theorem totalReferenceSize_listing {raw : List RawObject} (hkeys : (raw.map (·.key)).Nodup)
    (hroot : ¬("reference.bin" ∈ raw.map (·.key) ∧ "/reference.bin" ∈ raw.map (·.key))) :
    totalReferenceSize (insertReferences ∅ (raw.filter (decide <| IsReferenceKey ·.key))) =
      ((raw.filter (decide <| IsReferenceKey ·.key)).map (·.size)).sum := by
  rw [totalReferenceSize_insertReferences _ _ (nodup_referenceSlots hkeys hroot)
    fun _ _ => AList.not_mem_empty _]
  exact Nat.zero_add _

def sampleListing : List RawObject :=
  [⟨"x/reference.bin", 100⟩, ⟨"x/a.zip.delta", 5⟩, ⟨"x/b.txt", 7⟩]

section Collect

variable {f : ListObjects} {m : Nat} {bucket : String} {L : List RawObject}

theorem collect_eq_ok_iff {R : List RawObject} :
    collectObjectsWithPagination f bucket m = .ok R ↔ paginate f bucket m 0 none [] = .ok R := by
  unfold collectObjectsWithPagination
  split <;> simp_all

theorem paginate_start_exit (f : ListObjects) (m : Nat) (bucket : String) :
    ∃ j u raw, Reaches f m j u raw ∧ Exit f m bucket j u raw (paginate f bucket m 0 none []) :=
  paginate_exit m 0 none [] .start (Nat.zero_add m)

theorem collect_congr {g : ListObjects} (hg : ∀ i < m, ∀ t, g i t = f i t) :
    collectObjectsWithPagination g bucket m = collectObjectsWithPagination f bucket m := by
  simp only [collectObjectsWithPagination, paginate_congr hg m 0 none [] (Nat.zero_add m).le]

theorem collect_eq_error_iff {e : Error} :
    collectObjectsWithPagination f bucket m = .error e ↔
      ∃ j u e', Reaches f m j u [] ∧ j < m ∧ f j u = .error e' ∧
        e = .runtime ("Failed to collect bucket statistics for '" ++ bucket ++ "': " ++
          ("Failed to list objects in bucket '" ++ bucket ++ "': " ++ e'.message)) := by
  constructor
  · intro h
    obtain ⟨j, u, raw, hr, hx⟩ := paginate_start_exit f m bucket
    unfold collectObjectsWithPagination at h
    revert h hx
    generalize paginate f bucket m 0 none [] = r
    intro h hx
    cases hx with
    | failEmpty hj hf => exact ⟨j, u, _, hr, hj, hf, by simpa [eq_comm] using h⟩
    | _ => simp at h
  · rintro ⟨j, u, e', hr, hj, hf, rfl⟩
    rw [collectObjectsWithPagination, paginate_of_reaches hr,
      show m - j = (m - j - 1) + 1 by omega]
    simp [paginate, hf, Error.message]

theorem collect_ok_prefix_listing (hs : ServesListing L f) {R : List RawObject}
    (h : collectObjectsWithPagination f bucket m = .ok R) : R <+: L := by
  obtain ⟨resume, h0, hpg⟩ := hs
  obtain ⟨j, u, raw, hr, hx⟩ := paginate_start_exit f m bucket
  rw [collect_eq_ok_iff.1 h] at hx
  have hraw := hr.eq_take h0 hpg
  cases hx with
  | cap => exact hraw ▸ List.take_prefix _ _
  | failPartial => exact hraw ▸ List.take_prefix _ _
  | last _ hf => exact hraw ▸ (hpg _ _ _ hf).append ▸ List.take_prefix _ _

/-- With no failing call, truncated pages full and with a token, and the listing within
`max_iterations` pages, the whole listing is returned. -/
theorem collect_eq_listing (hs : ServesListing L f) (hok : ∀ i t, ∃ p, f i t = .ok p)
    (hfull : ∀ i t p, f i t = .ok p → p.isTruncated = true →
      p.objects.length = 1000 ∧ p.nextContinuationToken ≠ some "")
    (hL : L.length ≤ 1000 * m) : collectObjectsWithPagination f bucket m = .ok L := by
  obtain ⟨resume, h0, hpg⟩ := hs
  obtain ⟨j, u, raw, hr, hx⟩ := paginate_start_exit f m bucket
  have hraw := hr.eq_take h0 hpg
  have hnofail : ∀ {i t e}, f i t ≠ .error e := fun {i t _} he => by
    obtain ⟨p, hp⟩ := hok i t
    rw [hp] at he
    cases he
  rw [collect_eq_ok_iff]
  revert hx
  generalize paginate f bucket m 0 none [] = r
  intro hx
  cases hx with
  | cap =>
    rw [hraw, hr.resume_eq h0 hpg fun i t p hp htr => (hfull i t p hp htr).1,
      List.take_of_length_le hL]
  | failEmpty _ hf => exact absurd hf hnofail
  | failPartial _ hf => exact absurd hf hnofail
  | @last _ _ _ p _ hf hstop =>
    have hpage := hpg _ _ _ hf
    have htr : p.isTruncated = false := by
      rcases hstop with h | h | h
      · exact h
      all_goals
        refine Bool.eq_false_iff.2 fun htr => ?_
        obtain ⟨t', ht', -⟩ := hpage.next htr
      · rw [h] at ht'; cases ht'
      · exact (hfull _ _ _ hf htr).2 (h ▸ rfl)
    have hend : L.length ≤ resume u + p.objects.length := by
      by_contra hlt
      exact absurd (hpage.truncated_iff.2 (by omega)) (by simp [htr])
    rw [hraw, hpage.append, List.take_of_length_le hend]

/-- `_collect_objects_with_pagination` against any `list_objects` that serves `L`, with any
pattern of failing calls: only the first `max_iterations` calls matter; it raises exactly when a
call fails while nothing has been collected; a normal return is an in-order prefix of `L`; and
when no call fails, every truncated page is full with a non-empty token, and `L` fits in
`max_iterations` pages, it returns `L`. -/
theorem collectObjectsWithPagination_bounded_prefix_exact (L : List RawObject) (f : ListObjects)
    (bucket : String) (m : Nat) (hs : ServesListing L f) :
    (∀ g : ListObjects, (∀ i < m, ∀ t, g i t = f i t) →
      collectObjectsWithPagination g bucket m = collectObjectsWithPagination f bucket m) ∧
    (∀ e, collectObjectsWithPagination f bucket m = .error e ↔
      ∃ j u e', Reaches f m j u [] ∧ j < m ∧ f j u = .error e' ∧
        e = .runtime ("Failed to collect bucket statistics for '" ++ bucket ++ "': " ++
          ("Failed to list objects in bucket '" ++ bucket ++ "': " ++ e'.message))) ∧
    (∀ R, collectObjectsWithPagination f bucket m = .ok R → R <+: L ∧ (L.Nodup → R.Nodup)) ∧
    ((∀ i t, ∃ p, f i t = .ok p) →
      (∀ i t p, f i t = .ok p → p.isTruncated = true →
        p.objects.length = 1000 ∧ p.nextContinuationToken ≠ some "") →
      L.length ≤ 1000 * m → collectObjectsWithPagination f bucket m = .ok L) :=
  ⟨fun _ hg => collect_congr hg, fun _ => collect_eq_error_iff,
    fun _ h => ⟨collect_ok_prefix_listing hs h, (collect_ok_prefix_listing hs h).sublist.nodup⟩,
    collect_eq_listing hs⟩

def twoObjects : List RawObject := [⟨"a", 1⟩, ⟨"b", 2⟩]

theorem collect_twoObjects_full_pages :
    ServesListing twoObjects (pageServer twoObjects 1000) ∧
    collectObjectsWithPagination (pageServer twoObjects 1000) "b" 1 = .ok twoObjects :=
  ⟨pageServer_serves _ le_rfl,
    (collectObjectsWithPagination_bounded_prefix_exact twoObjects _ "b" 1
      (pageServer_serves _ le_rfl)).2.2.2 (fun _ _ => ⟨_, rfl⟩)
      (pageServer_full _ (by decide)) (by decide)⟩

theorem collect_single_object_pages_truncates :
    ServesListing twoObjects (pageServer twoObjects 1) ∧
    (∀ i t, ∃ p, pageServer twoObjects 1 i t = .ok p) ∧ twoObjects.length ≤ 1000 * 1 ∧
    collectObjectsWithPagination (pageServer twoObjects 1) "b" 1 = .ok [⟨"a", 1⟩] :=
  ⟨pageServer_serves _ (by decide), fun _ _ => ⟨_, rfl⟩, by decide, rfl⟩

/-- `get_bucket_stats` against any `list_objects` that serves `L`, with any pattern of failing
calls: it returns the statistics of an in-order prefix of `L`, or the empty statistics when the
collection raised; and those of `L` itself when no call fails, every truncated page is full with
a token, and `L` fits in 10000 pages. -/
theorem getBucketStats_of_listing (L : List RawObject) (f : ListObjects)
    (fetch : List String → MetadataMap) (bucket : String) (detailed : Bool)
    (hs : ServesListing L f) :
    ((∃ R, R <+: L ∧ getBucketStats f fetch bucket detailed = statsOfCollected fetch bucket detailed R) ∨
      (∃ e, collectObjectsWithPagination f bucket 10000 = .error e) ∧
        getBucketStats f fetch bucket detailed = emptyBucketStats bucket) ∧
    ((∀ i t, ∃ p, f i t = .ok p) →
      (∀ i t p, f i t = .ok p → p.isTruncated = true →
        p.objects.length = 1000 ∧ p.nextContinuationToken ≠ some "") →
      L.length ≤ 1000 * 10000 →
      getBucketStats f fetch bucket detailed = statsOfCollected fetch bucket detailed L) := by
  refine ⟨?_, fun hok hfull hL => by rw [getBucketStats, collect_eq_listing hs hok hfull hL]⟩
  rcases h : collectObjectsWithPagination f bucket 10000 with e | R
  · exact .inr ⟨⟨e, rfl⟩, by rw [getBucketStats, h]⟩
  · exact .inl ⟨R, collect_ok_prefix_listing hs h, by rw [getBucketStats, h]⟩

theorem getBucketStats_twoObjects :
    ServesListing twoObjects (pageServer twoObjects 1000) ∧
    getBucketStats (pageServer twoObjects 1000) (fun _ => []) "b" false =
      statsOfCollected (fun _ => []) "b" false twoObjects :=
  ⟨pageServer_serves _ le_rfl,
    (getBucketStats_of_listing twoObjects _ (fun _ => []) "b" false
      (pageServer_serves _ le_rfl)).2 (fun _ _ => ⟨_, rfl⟩) (pageServer_full _ (by decide))
      (by decide)⟩

end Collect

end Stats

end DeltaGlider
