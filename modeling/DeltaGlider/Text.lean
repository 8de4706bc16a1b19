import Mathlib.Data.List.Basic
import Mathlib.Data.List.Infix
import Mathlib.Data.String.Basic

/-! # Python string operations on object keys, and `int()` -/

namespace DeltaGlider

def endswith (s t : String) : Bool := t.data.isSuffixOf s.data

def startswith (s t : String) : Bool := t.data.isPrefixOf s.data

def hasSlash (s : String) : Bool := s.data.contains '/'

def splitSlash (s : String) : List String := (s.data.splitOn '/').map String.mk

def joinSlash (parts : List String) : String := ⟨['/'].intercalate (parts.map String.data)⟩

/-- `"/".join(s.split("/")[:-1])`: the key up to its last `/`. -/
def parentKey (s : String) : String := joinSlash (splitSlash s).dropLast

/-- `s.rsplit("/", 1)[0]`. -/
def rsplitHead (s : String) : String :=
  if hasSlash s then ⟨(s.data.reverse.dropWhile (· ≠ '/')).reverse.dropLast⟩ else s

def lastIndexOf (sep : List Char) : List Char → Option Nat
  | [] => if sep.isPrefixOf [] then some 0 else none
  | c :: cs =>
    match lastIndexOf sep cs with
    | some i => some (i + 1)
    | none => if sep.isPrefixOf (c :: cs) then some 0 else none

def rsplitOnHead (s sep : String) : String :=
  match lastIndexOf sep.data s.data with
  | some i => ⟨s.data.take i⟩
  | none => s

def dropRight (s : String) (n : Nat) : String := ⟨s.data.take (s.data.length - n)⟩

def removesuffix (s t : String) : String :=
  if endswith s t then dropRight s t.data.length else s

def rstripSlash (s : String) : String := ⟨(s.data.reverse.dropWhile (· = '/')).reverse⟩

def pathName (s : String) : String :=
  ((splitSlash s).filter (fun c => c ≠ "" ∧ c ≠ ".")).getLastD ""

/-- `s.replace("Z", "+00:00")`. -/
def replaceZ (s : String) : String :=
  ⟨s.data.flatMap fun c => if c = 'Z' then "+00:00".data else [c]⟩

theorem endswith_iff {s t : String} : endswith s t = true ↔ t.data <:+ s.data := by
  simp [endswith]

theorem startswith_iff {s t : String} : startswith s t = true ↔ t.data <+: s.data := by
  simp [startswith]

theorem hasSlash_iff {s : String} : hasSlash s = true ↔ '/' ∈ s.data := by
  simp [hasSlash]

@[simp] theorem endswith_append (s t : String) : endswith (s ++ t) t = true :=
  endswith_iff.2 (by simp [List.suffix_append])

@[simp] theorem startswith_append (s t : String) : startswith (s ++ t) s = true :=
  startswith_iff.2 (by simp [List.prefix_append])

theorem startswith_append_cancel (a x y : String) :
    startswith (a ++ x) (a ++ y) = startswith x y := by
  rw [Bool.eq_iff_iff, startswith_iff, startswith_iff, String.data_append, String.data_append,
    List.prefix_append_right_inj]

theorem startswith_of_append {k a b : String} (h : startswith k (a ++ b) = true) :
    startswith k a = true := by
  rw [startswith_iff] at h ⊢
  exact (List.prefix_append _ _).trans (by simpa using h)

theorem hasSlash_append_slash (p t : String) : hasSlash (p ++ "/" ++ t) = true :=
  hasSlash_iff.2 (by simp)

theorem suffix_append_slash_iff {t a n : List Char} (ht : '/' ∉ t) :
    t <:+ a ++ '/' :: n ↔ t <:+ n := by
  refine ⟨fun h => ?_, fun h => h.trans ((List.suffix_cons _ _).trans (List.suffix_append _ _))⟩
  rcases Nat.lt_or_ge n.length t.length with hl | hl
  · have hn : ('/' :: n) <:+ t := List.suffix_of_suffix_length_le (List.suffix_append _ _) h hl
    exact absurd (hn.mem (List.mem_cons_self _ _)) ht
  · exact List.suffix_of_suffix_length_le h ((List.suffix_cons _ _).trans (List.suffix_append _ _)) hl

theorem endswith_append_slash {a n t : String} (ht : '/' ∉ t.data) :
    endswith (a ++ "/" ++ n) t = endswith n t := by
  have hd : (a ++ "/" ++ n).data = a.data ++ '/' :: n.data := by simp
  rw [Bool.eq_iff_iff, endswith_iff, endswith_iff, hd, suffix_append_slash_iff ht]

theorem splitOnP_append_sep {p : Char → Bool} {c : Char} (hc : p c = true) (xs ys : List Char) :
    (xs ++ c :: ys).splitOnP p = xs.splitOnP p ++ ys.splitOnP p := by
  induction xs with
  | nil => simp [hc]
  | cons x xs ih =>
    obtain ⟨a, l, h⟩ := List.exists_cons_of_ne_nil (List.splitOnP_ne_nil p xs)
    by_cases hx : p x <;> simp [hx, ih, h]

theorem splitOn_append_slash (p t : List Char) (ht : '/' ∉ t) :
    (p ++ '/' :: t).splitOn '/' = p.splitOn '/' ++ [t] := by
  rw [List.splitOn, splitOnP_append_sep (by simp)]
  congr 1
  exact List.splitOnP_eq_single _ _ (fun x hx h => ht (by simpa using (beq_iff_eq.1 h) ▸ hx))

theorem not_mem_of_mem_splitOn {c : Char} : ∀ {xs l : List Char}, l ∈ xs.splitOn c → c ∉ l
  | [], l, h => by simp_all [List.splitOn]
  | x :: xs, l, h => by
    rw [List.splitOn, List.splitOnP_cons] at h
    obtain ⟨a, t, e⟩ := List.exists_cons_of_ne_nil (List.splitOnP_ne_nil (· == c) xs)
    have ih : ∀ l ∈ xs.splitOnP (· == c), c ∉ l := fun l => not_mem_of_mem_splitOn
    split at h
    · rcases List.mem_cons.1 h with rfl | h
      exacts [List.not_mem_nil c, ih l h]
    · rename_i hx
      rw [e] at h ih
      rcases List.mem_cons.1 h with rfl | h
      · exact List.not_mem_cons_of_ne_of_not_mem (fun hc => hx (by simp [hc]))
          (ih a (List.mem_cons_self _ _))
      · exact ih l (List.mem_cons_of_mem _ h)

theorem slash_not_mem_pathName (s : String) : '/' ∉ (pathName s).data := by
  have h : ∀ (l : List String) (d : String), '/' ∉ d.data → (∀ x ∈ l, '/' ∉ x.data) →
      '/' ∉ (l.getLastD d).data := by
    intro l
    induction l with
    | nil => exact fun d hd _ => hd
    | cons a l ih =>
      intro _ _ hl
      rw [List.getLastD_cons]
      exact ih a (hl a (List.mem_cons_self _ _)) fun x hx => hl x (List.mem_cons_of_mem _ hx)
  refine h _ _ (by decide) fun x hx => ?_
  obtain ⟨y, hy, rfl⟩ := List.mem_map.1 (List.mem_filter.1 hx).1
  exact not_mem_of_mem_splitOn hy

theorem endswith_underscore_reference {x n : String} (hn : '/' ∉ n.data) :
    endswith (x ++ "_" ++ n) "/reference.bin" = false := by
  rw [← Bool.not_eq_true, endswith_iff]
  intro h
  have hd : (x ++ "_" ++ n).data = x.data ++ '_' :: n.data := by simp
  rw [hd] at h
  rcases List.suffix_or_suffix_of_suffix h (List.suffix_append x.data ('_' :: n.data)) with h' | h'
  · exact hn (List.mem_of_ne_of_mem (by decide) (h'.subset (by decide : '/' ∈ "/reference.bin".data)))
  · exact absurd (h'.subset (List.mem_cons_self '_' n.data)) (by decide)

theorem parentKey_append (p t : String) (ht : '/' ∉ t.data) : parentKey (p ++ "/" ++ t) = p := by
  apply String.ext
  have hd : (p ++ "/" ++ t).data = p.data ++ '/' :: t.data := by simp
  simp only [parentKey, joinSlash, splitSlash, hd, splitOn_append_slash _ _ ht, List.map_append,
    List.map_map, List.map_cons, List.map_nil, List.dropLast_concat]
  have hid : (String.data ∘ String.mk) = id := rfl
  rw [hid, List.map_id]
  exact List.intercalate_splitOn p.data '/'

theorem rsplitHead_append (p t : String) (ht : '/' ∉ t.data) : rsplitHead (p ++ "/" ++ t) = p := by
  have hd : (p ++ "/" ++ t).data.reverse = t.data.reverse ++ '/' :: p.data.reverse := by simp
  have hdrop : t.data.reverse.dropWhile (· ≠ '/') = [] :=
    List.dropWhile_eq_nil_iff.2 fun c hc => decide_eq_true fun e => ht (e ▸ List.mem_reverse.1 hc)
  rw [rsplitHead, if_pos (hasSlash_append_slash p t)]
  apply String.ext
  dsimp only
  rw [hd, List.dropWhile_append, hdrop]
  simp

theorem lastIndexOf_le {sep : List Char} :
    ∀ {l : List Char} {i : Nat}, lastIndexOf sep l = some i → i + sep.length ≤ l.length
  | [], i, h => by
    unfold lastIndexOf at h
    split at h
    · obtain rfl := Option.some_inj.1 h
      simp_all [List.isPrefixOf_iff_prefix]
    · cases h
  | c :: cs, i, h => by
    unfold lastIndexOf at h
    split at h
    · next j hj =>
      obtain rfl := Option.some_inj.1 h
      have := lastIndexOf_le hj
      simp only [List.length_cons]
      omega
    · split at h
      · next hp =>
        obtain rfl := Option.some_inj.1 h
        simpa using (List.isPrefixOf_iff_prefix.1 hp).length_le
      · cases h

theorem lastIndexOf_append {sep : List Char} (hs : sep ≠ []) :
    ∀ p : List Char, lastIndexOf sep (p ++ sep) = some p.length
  | [] => by
    obtain ⟨c, cs, rfl⟩ := List.exists_cons_of_ne_nil hs
    have hnone : lastIndexOf (c :: cs) cs = none := by
      rcases h : lastIndexOf (c :: cs) cs with _ | i
      · rfl
      · have := lastIndexOf_le h
        simp only [List.length_cons] at this
        omega
    simp [lastIndexOf, hnone, List.isPrefixOf_iff_prefix]
  | c :: p => by simp [lastIndexOf, lastIndexOf_append hs p]

theorem rsplitOnHead_append (p sep : String) (hs : sep ≠ "") : rsplitOnHead (p ++ sep) sep = p := by
  have hs' : sep.data ≠ [] := fun h => hs (String.ext h)
  simp [rsplitOnHead, lastIndexOf_append hs']

theorem endswith_delta_reference {k : String} (h : endswith k ".delta" = true) :
    endswith k "/reference.bin" = false := by
  rw [← Bool.not_eq_true, endswith_iff]
  intro h'
  rcases List.suffix_or_suffix_of_suffix (endswith_iff.1 h) h' with h'' | h'' <;>
    exact absurd h'' (by decide)

theorem exists_last_slash : ∀ l : List Char, '/' ∈ l → ∃ a t, l = a ++ '/' :: t ∧ '/' ∉ t
  | [], h => absurd h (List.not_mem_nil _)
  | c :: l, h => by
    by_cases hl : '/' ∈ l
    · obtain ⟨a, t, rfl, ht⟩ := exists_last_slash l hl
      exact ⟨c :: a, t, rfl, ht⟩
    · obtain rfl : c = '/' := by simp_all [eq_comm]
      exact ⟨[], l, rfl, hl⟩

theorem slash_prefix_of_last_slash {v a t : List Char} (ht : '/' ∉ t)
    (h : v ++ ['/'] <+: a ++ ['/'] ++ t) : v ++ ['/'] <+: a ++ ['/'] := by
  obtain ⟨u, hu⟩ := h
  rcases List.append_eq_append_iff.1 hu with ⟨a', h1, -⟩ | ⟨c', h1, h2⟩
  · exact ⟨a', h1.symm⟩
  · rcases List.eq_nil_or_concat' c' with rfl | ⟨L, b, rfl⟩
    · exact ⟨[], by simp [h1]⟩
    · have h1' : v ++ ['/'] = (a ++ ['/'] ++ L) ++ [b] := by rw [h1]; simp
      obtain rfl : '/' = b := by simpa using (List.append_inj' h1' rfl).2
      exact absurd (by simp [h2]) ht

theorem startswith_parent_reference {k pfx : String} (hp : pfx = "" ∨ endswith pfx "/" = true)
    (hs : hasSlash k = true) (hk : startswith k pfx = true) :
    startswith (parentKey k ++ "/reference.bin") pfx = true := by
  rcases hp with rfl | hp
  · exact startswith_iff.2 List.nil_prefix
  obtain ⟨a, t, hk', ht⟩ := exists_last_slash k.data (hasSlash_iff.1 hs)
  have e : k = ⟨a⟩ ++ "/" ++ ⟨t⟩ := String.ext (by simp [hk'])
  obtain ⟨v, hv⟩ := endswith_iff.1 hp
  rw [e, startswith_iff, ← hv] at hk
  rw [e, parentKey_append _ _ ht, startswith_iff, ← hv]
  exact (slash_prefix_of_last_slash ht hk).trans ((List.prefix_append_right_inj a).2 (by decide))

def digitStep (acc : Nat) (c : Char) : Nat := acc * 10 + (c.toNat - '0'.toNat)

def isAsciiSpace (c : Char) : Bool := c = ' ' || ('\t' ≤ c && c ≤ '\r')

/-- `Py_UNICODE_ISSPACE` outside ASCII: `int()` reads each of these as a space. -/
def isUnicodeSpace (c : Char) : Bool :=
  [0x85, 0xA0, 0x1680, 0x2028, 0x2029, 0x202F, 0x205F, 0x3000].contains c.toNat ||
    (0x2000 ≤ c.toNat && c.toNat ≤ 0x200A)

/-- The zero of each run of ten decimal digits outside ASCII (category Nd, Unicode 15.0). -/
def decimalZeros : List Nat :=
  [0x660, 0x6F0, 0x7C0, 0x966, 0x9E6, 0xA66, 0xAE6, 0xB66, 0xBE6, 0xC66, 0xCE6, 0xD66, 0xDE6,
    0xE50, 0xED0, 0xF20, 0x1040, 0x1090, 0x17E0, 0x1810, 0x1946, 0x19D0, 0x1A80, 0x1A90, 0x1B50,
    0x1BB0, 0x1C40, 0x1C50, 0xA620, 0xA8D0, 0xA900, 0xA9D0, 0xA9F0, 0xAA50, 0xABF0, 0xFF10,
    0x104A0, 0x10D30, 0x11066, 0x110F0, 0x11136, 0x111D0, 0x112F0, 0x11450, 0x114D0, 0x11650,
    0x116C0, 0x11730, 0x118E0, 0x11950, 0x11C50, 0x11D50, 0x11DA0, 0x11F50, 0x16A60, 0x16AC0,
    0x16B50, 0x1D7CE, 0x1D7D8, 0x1D7E2, 0x1D7EC, 0x1D7F6, 0x1E140, 0x1E2F0, 0x1E4F0, 0x1E950,
    0x1FBF0]

def decimalValue (c : Char) : Option Nat :=
  (decimalZeros.find? fun z => z ≤ c.toNat && c.toNat < z + 10).map (c.toNat - ·)

/-- `_PyUnicode_TransformDecimalAndSpaceToASCII` on one character: ASCII stays, whitespace becomes
`' '`, a decimal digit its ASCII digit, anything else `'?'`, which no number contains. -/
def asciiOf (c : Char) : Char :=
  if c.toNat < 127 then c
  else if isUnicodeSpace c then ' '
  else match decimalValue c with
    | some d => Char.ofNat ('0'.toNat + d)
    | none => '?'

/-- `long_from_string_base` after the first digit: digits with single `_` between them, then
whitespace to the end; `prev` is the character read last. -/
def scanDigits (acc : Nat) (prev : Char) : List Char → Option Nat
  | [] => if prev = '_' then none else some acc
  | c :: cs =>
    if c.isDigit then scanDigits (digitStep acc c) c cs
    else if c = '_' then if prev = '_' then none else scanDigits acc c cs
    else if prev ≠ '_' ∧ (c :: cs).all isAsciiSpace then some acc else none

def pyDigits : List Char → Option Nat
  | c :: cs => if c.isDigit then scanDigits (digitStep 0 c) c cs else none
  | [] => none

/-- Python's `int(s)` in base 10 (`PyLong_FromUnicodeObject`): whitespace around an optional sign
and decimal digits of any script, with single `_` between digits. -/
def pyInt (s : String) : Option Int :=
  match (s.data.map asciiOf).dropWhile isAsciiSpace with
  | c :: cs =>
    if c = '-' then (pyDigits cs).map fun n : Nat => -(n : Int)
    else if c = '+' then (pyDigits cs).map fun n : Nat => (n : Int)
    else (pyDigits (c :: cs)).map fun n : Nat => (n : Int)
  | [] => none

theorem digitChar_spec : ∀ k : Fin 10, (Nat.digitChar k).isDigit = true ∧
    (Nat.digitChar k).toNat - '0'.toNat = k := by decide

theorem toDigitsCore_succ (fuel n : Nat) (ds : List Char) :
    Nat.toDigitsCore 10 (fuel + 1) n ds = if n / 10 = 0 then Nat.digitChar (n % 10) :: ds
      else Nat.toDigitsCore 10 fuel (n / 10) (Nat.digitChar (n % 10) :: ds) := rfl

theorem toString_data (n : Nat) : (toString n).data = Nat.toDigitsCore 10 (n + 1) n [] := rfl

theorem toDigitsCore_spec : ∀ fuel n (ds : List Char), n < fuel → ∃ L : List Char,
    Nat.toDigitsCore 10 fuel n ds = L ++ ds ∧ L ≠ [] ∧ (∀ c ∈ L, c.isDigit = true) ∧
      ∀ acc, L.foldl digitStep acc = acc * 10 ^ L.length + n := by
  intro fuel
  induction fuel with
  | zero => intro n ds h; omega
  | succ f ih =>
    intro n ds h
    have hd : (Nat.digitChar (n % 10)).isDigit = true ∧
        (Nat.digitChar (n % 10)).toNat - '0'.toNat = n % 10 :=
      digitChar_spec ⟨n % 10, Nat.mod_lt _ (by omega)⟩
    by_cases h0 : n / 10 = 0
    · refine ⟨[Nat.digitChar (n % 10)], by simp [toDigitsCore_succ, h0], by simp,
        by simpa using hd.1, fun acc => ?_⟩
      simp only [List.foldl, digitStep, hd.2, List.length_singleton, Nat.pow_one]
      omega
    · obtain ⟨L, hL, -, hdig, hfold⟩ := ih (n / 10) (Nat.digitChar (n % 10) :: ds) (by omega)
      refine ⟨L ++ [Nat.digitChar (n % 10)], by simp [toDigitsCore_succ, h0, hL], by simp, ?_,
        fun acc => ?_⟩
      · intro c hc
        rcases List.mem_append.1 hc with hc | hc
        · exact hdig c hc
        · exact (List.mem_singleton.1 hc) ▸ hd.1
      · simp only [List.foldl_append, hfold, List.foldl, digitStep, hd.2, List.length_append,
          List.length_singleton, Nat.pow_succ]
        have := Nat.div_add_mod n 10
        rw [Nat.add_mul, Nat.mul_assoc]
        omega

theorem toNat_lt_of_isDigit {c : Char} (h : c.isDigit = true) : c.toNat < 127 := by
  simp only [Char.isDigit, Bool.and_eq_true, decide_eq_true_eq] at h
  have : c.val.toNat ≤ 57 := h.2
  exact Nat.lt_of_le_of_lt this (by decide)

theorem scanDigits_of_digits : ∀ (L : List Char) (acc : Nat) {prev : Char}, prev ≠ '_' →
    (∀ c ∈ L, c.isDigit = true) → scanDigits acc prev L = some (L.foldl digitStep acc)
  | [], _, _, hp, _ => by simp [scanDigits, hp]
  | c :: cs, acc, _, _, hd => by
    have hc := hd c (List.mem_cons_self _ _)
    rw [scanDigits, if_pos hc, List.foldl_cons]
    exact scanDigits_of_digits cs _ (fun e => absurd (e ▸ hc) (by decide))
      fun c' h => hd c' (List.mem_cons_of_mem _ h)

theorem pyDigits_of_digits {L : List Char} (hne : L ≠ []) (hd : ∀ c ∈ L, c.isDigit = true) :
    pyDigits L = some (L.foldl digitStep 0) := by
  obtain ⟨c, cs, rfl⟩ := List.exists_cons_of_ne_nil hne
  have hc := hd c (List.mem_cons_self _ _)
  rw [pyDigits, if_pos hc, List.foldl_cons]
  exact scanDigits_of_digits cs _ (fun e => absurd (e ▸ hc) (by decide))
    fun c' h => hd c' (List.mem_cons_of_mem _ h)

theorem map_asciiOf {L : List Char} (h : ∀ c ∈ L, c.toNat < 127) : L.map asciiOf = L :=
  (List.map_congr_left fun c hc => (if_pos (h c hc) : asciiOf c = id c)).trans L.map_id

theorem isAsciiSpace_of_isDigit {c : Char} (h : c.isDigit = true) : isAsciiSpace c = false := by
  simp only [Char.isDigit, Bool.and_eq_true, decide_eq_true_eq] at h
  have h1 : 48 ≤ c.val.toNat := h.1
  have h2 : ¬c ≤ '\r' := fun h' => by have : c.val.toNat ≤ 13 := h'; omega
  have h3 : c ≠ ' ' := fun e => by rw [e] at h1; exact absurd h1 (by decide)
  simp [isAsciiSpace, h2, h3]

theorem pyInt_of_digits {L : List Char} (hne : L ≠ []) (hd : ∀ c ∈ L, c.isDigit = true) :
    pyInt ⟨L⟩ = some ((L.foldl digitStep 0 : Nat) : Int) ∧
      pyInt ⟨'-' :: L⟩ = some (-((L.foldl digitStep 0 : Nat) : Int)) := by
  obtain ⟨c, cs, rfl⟩ := List.exists_cons_of_ne_nil hne
  have hc := hd c (List.mem_cons_self _ _)
  have hm := map_asciiOf fun c h => toNat_lt_of_isDigit (hd c h)
  have hpd := pyDigits_of_digits hne hd
  have hne' : c ≠ '-' ∧ c ≠ '+' :=
    ⟨fun e => absurd (e ▸ hc) (by decide), fun e => absurd (e ▸ hc) (by decide)⟩
  constructor
  · simp only [pyInt, hm, List.dropWhile_cons_of_neg (by simp [isAsciiSpace_of_isDigit hc] :
        ¬isAsciiSpace c = true),
      if_neg hne'.1, if_neg hne'.2, hpd, Option.map_some']
  · simp only [pyInt, List.map_cons, hm, (by decide : asciiOf '-' = '-'),
      List.dropWhile_cons_of_neg (by decide : ¬isAsciiSpace '-' = true), if_pos, hpd,
      Option.map_some']

/-- `int(str(i)) = i`. -/
theorem pyInt_toString (i : Int) : pyInt (toString i) = some i := by
  cases i with
  | ofNat n =>
    obtain ⟨L, hL, hne, hdig, hfold⟩ := toDigitsCore_spec (n + 1) n [] (by omega)
    have hs : toString (Int.ofNat n) = ⟨L⟩ := String.ext (by rw [← List.append_nil L, ← hL]; rfl)
    rw [hs, (pyInt_of_digits hne hdig).1, hfold, Nat.zero_mul, Nat.zero_add]; rfl
  | negSucc m =>
    obtain ⟨L, hL, hne, hdig, hfold⟩ := toDigitsCore_spec (m + 1 + 1) (m + 1) [] (by omega)
    have hs : toString (Int.negSucc m) = ⟨'-' :: L⟩ :=
      String.ext (by rw [← List.append_nil L, ← hL]; rfl)
    rw [hs, (pyInt_of_digits hne hdig).2, hfold, Nat.zero_mul, Nat.zero_add, Int.negSucc_eq]; rfl

example : pyInt " 1_000\n" = some 1000 := by decide
example : pyInt "\u0661\u0662" = some 12 := by decide
example : pyInt "1__000" = none := by decide

theorem toNat?_toString (n : Nat) : (toString n).toNat? = some n := by
  obtain ⟨L, hL, hne, hdig, hfold⟩ := toDigitsCore_spec (n + 1) n [] (by omega)
  have hs : (toString n).data = L := by rw [toString_data, hL, List.append_nil]
  have hisNat : (toString n).isNat = true := by
    simp only [String.isNat, String.all_eq, hs, Bool.and_eq_true, Bool.not_eq_true']
    have hne' : toString n ≠ "" := fun h => hne (by rw [← hs, h])
    exact ⟨Bool.eq_false_iff.2 (fun h => hne' ((String.isEmpty_iff _).1 h)),
      List.all_eq_true.2 hdig⟩
  simp only [String.toNat?, hisNat, if_true, String.foldl_eq, hs]
  simpa [digitStep] using hfold 0

theorem toInt?_toString_ofNat (n : Nat) : (toString (n : Int)).toInt? = some n := by
  obtain ⟨L, hL, hne, hdig, -⟩ := toDigitsCore_spec (n + 1) n [] (by omega)
  obtain ⟨c, cs, rfl⟩ := List.exists_cons_of_ne_nil hne
  have hs : toString n = ⟨c :: cs⟩ := String.ext (by rw [toString_data, hL, List.append_nil])
  have hc : c ≠ '-' := fun e => by
    have := hdig c (List.mem_cons_self _ _)
    rw [e] at this
    exact absurd this (by decide)
  show (toString n).toInt? = some n
  rw [String.toInt?, if_neg (by rw [hs]; exact hc), toNat?_toString]
  rfl

theorem replaceZ_of_not_mem {s : String} (h : 'Z' ∉ s.data) : replaceZ s = s := by
  suffices ∀ l : List Char, 'Z' ∉ l →
      (l.flatMap fun c => if c = 'Z' then "+00:00".data else [c]) = l from
    String.ext (this s.data h)
  intro l hl
  induction l with
  | nil => rfl
  | cons c cs ih =>
    rw [List.mem_cons, not_or] at hl
    rw [List.flatMap_cons, if_neg (Ne.symm hl.1), ih hl.2, List.singleton_append]

theorem not_mem_toString_ofNat (n : Nat) : 'Z' ∉ (toString (n : Int)).data := fun hz => by
  obtain ⟨L, hL, -, hdig, -⟩ := toDigitsCore_spec (n + 1) n [] (by omega)
  have := hdig 'Z' (by rwa [← List.append_nil L, ← hL, ← toString_data])
  exact absurd this (by decide)

end DeltaGlider
