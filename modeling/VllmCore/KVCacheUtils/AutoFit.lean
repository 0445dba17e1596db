import VllmCore.KVCacheUtils.Groups
import VllmCore.Support.Bisect
import VllmCore.Support.Growth
import VllmCore.Support.PySlice
/-!
# The longest context that fits

The maximum model length is found by bisection.  The probe writes each length into the
configuration and asks the specifications for the memory they need; the configuration is
restored on the way out.  The memory grows with the length, so that the search finds the
greatest length that fits.
-/

namespace VllmCore.KVCacheUtils

open List Nat Support

variable {N : Type} [DecidableEq N]

/-! ## The search and the configuration it writes to -/

def VllmConfig.withMaxModelLen (c : VllmConfig) (maxModelLen : Nat) : VllmConfig :=
  { c with maxModelLen := maxModelLen }

/-- `max_memory_usage_bytes`, of the specifications of all layers. -/
def maxMemoryUsageBytes (c : VllmConfig) (kvCacheSpecs : List KVCacheSpec) : Py Int :=
  sumPy (fun spec => spec.maxMemoryUsageBytes c) kvCacheSpecs

/-- `fits_in_memory` and `fits`: the probe leaves its length in the configuration. -/
def fitsInMemory (usage : VllmConfig → Py Int) (availableMemory : Int) (modelLen : Nat)
    (c : VllmConfig) : Py Bool × VllmConfig :=
  let c := c.withMaxModelLen modelLen
  ((do let memoryNeeded ← usage c
       return decide (memoryNeeded ≤ availableMemory)), c)

/-- The `while` loop of the search; the interval shrinks, so `fuel` is its length. -/
def searchLoop (fits : Nat → VllmConfig → Py Bool × VllmConfig) :
    Nat → Nat → Nat → Nat → VllmConfig → Py Nat × VllmConfig
  | 0, _, _, result, c => (.ok result, c)
  | fuel + 1, left, right, result, c =>
    if left ≤ right then
      let mid := (left + right) / 2
      match fits mid c with
      | (.error e, c) => (.error e, c)
      | (.ok true, c) => searchLoop fits fuel (mid + 1) right mid c
      | (.ok false, c) => searchLoop fits fuel left (mid - 1) result c
    else (.ok result, c)

/-- The search for the maximum model length, with the `finally` clause at its end. -/
def estimateWith (usage : VllmConfig → Py Int) (availableMemory : Int) (c : VllmConfig) :
    Py Nat × VllmConfig :=
  let originalMaxModelLen := c.maxModelLen
  let fits := fitsInMemory usage availableMemory
  let res : Py Nat × VllmConfig :=
    match fits 1 c with
    | (.error e, c) => (.error e, c)
    | (.ok false, c) => (.ok 0, c)
    | (.ok true, c) => searchLoop fits (originalMaxModelLen + 1) 1 originalMaxModelLen 1 c
  (res.1, res.2.withMaxModelLen originalMaxModelLen)

def estimateMaxModelLen (kvCacheSpec : Dict N KVCacheSpec) (availableMemory : Int) :
    VllmConfig → Py Nat × VllmConfig :=
  estimateWith (fun c => maxMemoryUsageBytes c kvCacheSpec.values) availableMemory

/-- `_estimate_max_model_len_from_groups`. -/
def estimateFromGroups (kvCacheGroups : List (KVCacheGroupSpec N)) (availableMemory : Int) :
    VllmConfig → Py Nat × VllmConfig :=
  estimateWith (fun c => maxMemoryUsageBytesFromGroups c kvCacheGroups) availableMemory

/-- The loop of `_auto_fit_max_model_len` over the workers. -/
def autoFitLoop : List (List (KVCacheGroupSpec N) × Int) → Nat → VllmConfig → Py Nat × VllmConfig
  | [], autoFitMax, c => (.ok autoFitMax, c)
  | (groups, availMem) :: workers, autoFitMax, c =>
    if groups.isEmpty then autoFitLoop workers autoFitMax c
    else
      match estimateFromGroups groups availMem c with
      | (.error e, c) => (.error e, c)
      | (.ok workerMax, c) =>
        autoFitLoop workers (if workerMax < autoFitMax then workerMax else autoFitMax) c

/-- `_auto_fit_max_model_len`. -/
def autoFit (projected : List (List (KVCacheGroupSpec N))) (availableMemory : List Int)
    (c : VllmConfig) : Py Unit × VllmConfig :=
  let originalMax := c.maxModelLen
  if projected.all List.isEmpty then (.ok (), c)
  else
    match pyGet availableMemory 0 with
    | .error e => (.error e, c)
    | .ok _ =>
      match autoFitLoop (projected.zip availableMemory) originalMax c with
      | (.error e, c) => (.error e, c)
      | (.ok autoFitMax, c) =>
        if autoFitMax ≤ 0 then
          (.error (.valueError ("Cannot auto-fit max_model_len: not enough GPU memory " ++
            "available to serve even a single token. Try increasing gpu_memory_utilization.")),
            c)
        else if originalMax ≤ autoFitMax then (.ok (), c)
        else (.ok (), c.withMaxModelLen autoFitMax)

/-! ## The memory grows with the length -/

variable {γ : Type} {u : γ → Nat → Py Int} {xs : List γ} {c : VllmConfig}
  {availableMemory : List Int}

theorem Grows.sumPy
    (h : ∀ x ∈ xs, Grows (u x)) : Grows fun n => KVCacheUtils.sumPy (fun x => u x n) xs := by
  unfold KVCacheUtils.sumPy
  rcases Grows.mapM h with ⟨fs, hfs, hxs⟩ | ⟨e, hxs⟩
  · refine .inl ⟨_, monotone_sum hfs, ?_⟩
    intro n
    beta_reduce
    rw [hxs n]
    rfl
  · refine .inr ⟨e, ?_⟩
    intro n
    beta_reduce
    rw [hxs n]
    rfl

theorem Grows.maxPy (h : ∀ x ∈ xs, Grows (u x)) :
    Grows fun n => (do KVCacheUtils.maxPy (← xs.mapM fun x => u x n) : Py Int) := by
  rcases Grows.mapM h with ⟨fs, hfs, hxs⟩ | ⟨e, hxs⟩
  · cases fs with
    | nil =>
      refine .inr ⟨.valueError "max() arg is an empty sequence", ?_⟩
      intro n
      beta_reduce
      rw [hxs n]
      rfl
    | cons f fs =>
      refine .inl ⟨fun n => (fs.map (· n)).foldl max (f n), ?_, ?_⟩
      · intro m n hmn
        apply foldl_max_mono (fun g hg => hfs g (mem_cons_of_mem f hg)) hmn
        exact hfs f mem_cons_self hmn
      · intro n
        beta_reduce
        rw [hxs n]
        rfl
  · refine .inr ⟨e, ?_⟩
    intro n
    beta_reduce
    rw [hxs n]
    rfl

theorem cdivPy_eq {b : Nat} (hb : 0 < b) (a : Int) : KVCacheUtils.cdivPy a b = .ok (cdiv a b) := by
  obtain ⟨q, hq⟩ : ∃ q, KVCacheUtils.cdivPy a b = .ok q := by
    unfold KVCacheUtils.cdivPy floorDiv
    rw [if_neg (by omega)]
    exact ⟨_, rfl⟩
  rw [hq, (cdivPy_ok hq).2]

theorem Grows.cdivPy {u : Nat → Py Int} (hu : Grows u) (pageSize : Nat) :
    Grows fun n => (do KVCacheUtils.cdivPy (← u n) pageSize : Py Int) := by
  rcases Nat.eq_zero_or_pos pageSize with rfl | hpos
  · rcases hu with ⟨f, -, hu⟩ | ⟨e, hu⟩
    · refine .inr ⟨.zeroDivisionError "integer division or modulo by zero", ?_⟩
      intro n
      beta_reduce
      rw [hu n]
      rfl
    · refine .inr ⟨e, ?_⟩
      intro n
      beta_reduce
      rw [hu n]
      rfl
  · simp only [cdivPy_eq hpos]
    exact hu.map fun a b hab => cdiv_mono hpos hab

theorem Grows.pages (s : KVCacheSpec) {pages : Nat → Int} (h : Monotone pages) :
    Grows fun n => (do
      let pageSize ← s.pageSizeBytes
      return pages n * pageSize : Py Int) := by
  apply Grows.after s.pageSizeBytes
  intro pageSize
  apply Grows.of_monotone
  intro m n hmn
  exact Int.mul_le_mul_of_nonneg_right (h hmn) (Int.natCast_nonneg pageSize)

theorem monotone_cdiv {f : Nat → Int} (hf : Monotone f) {blockSize : Nat} (hpos : 0 < blockSize) :
    Monotone fun n => cdiv (f n) blockSize :=
  fun _ _ hmn => cdiv_mono hpos (hf hmn)

theorem maxMemoryUsageBytes_grows (c : VllmConfig) (s : KVCacheSpec) :
    Grows fun n => s.maxMemoryUsageBytes (c.withMaxModelLen n) := by
  have hsize := s.blockSize_pos
  have hlen : Monotone fun n : Nat => (n : Int) := fun m n hmn => Int.ofNat_le.mpr hmn
  have hmin : ∀ k : Nat, Monotone fun n : Nat => ((min k n : Nat) : Int) :=
    fun k m n hmn => Int.ofNat_le.mpr (min_le_min_left k hmn)
  unfold KVCacheSpec.maxMemoryUsageBytes
  dsimp only [VllmConfig.withMaxModelLen]
  split
  -- the kinds of full attention
  iterate 3
    · apply Grows.pages
      split
      next hworld => exact monotone_cdiv (monotone_cdiv hlen (by omega)) hsize
      · exact monotone_cdiv hlen hsize
  · exact Grows.pages s (monotone_cdiv (hmin _) hsize)
  · apply Grows.after (pyAssert (c.decodeContextParallelSize = 1) "DCP not support sliding window.")
    intro _
    apply Grows.pages
    intro m n hmn
    exact Int.add_le_add_right (monotone_cdiv (hmin _) hsize hmn) 1
  · split
    · exact Grows.pages s (monotone_cdiv hlen hsize)
    · exact Grows.pages s monotone_const
    · exact Grows.pages s monotone_const
  · exact Grows.pages s monotone_const

theorem GroupSpec.maxMemoryUsageBytes_grows (c : VllmConfig) (g : GroupSpec N) :
    Grows fun n => g.maxMemoryUsageBytes (c.withMaxModelLen n) := by
  cases g with
  | single spec => exact KVCacheUtils.maxMemoryUsageBytes_grows c spec
  | uniformType blockSize specs =>
    have hpages : ∀ s : KVCacheSpec, Grows fun n => (do
        cdivPy (← s.maxMemoryUsageBytes (c.withMaxModelLen n)) (← s.pageSizeBytes) : Py Int) := by
      intro s
      apply Grows.before (KVCacheUtils.maxMemoryUsageBytes_grows c s) s.pageSizeBytes
      exact fun pageSize => Grows.cdivPy (KVCacheUtils.maxMemoryUsageBytes_grows c s) pageSize
    have hmax : Grows fun n => (do
        KVCacheUtils.maxPy (← specs.values.mapM fun s => do
          cdivPy (← s.maxMemoryUsageBytes (c.withMaxModelLen n)) (← s.pageSizeBytes)) :
        Py Int) := Grows.maxPy fun s _ => hpages s
    unfold maxMemoryUsageBytes
    simp only [← bind_assoc]
    apply Grows.before hmax (uniformType blockSize specs).pageSizeBytes
    intro pageSize
    apply hmax.map
    intro a b hab
    exact Int.mul_le_mul_of_nonneg_right hab (Int.natCast_nonneg pageSize)

theorem maxMemoryUsageBytesFromGroups_grows (c : VllmConfig)
    (kvCacheGroups : List (KVCacheGroupSpec N)) :
    Grows fun n => maxMemoryUsageBytesFromGroups (c.withMaxModelLen n) kvCacheGroups := by
  unfold maxMemoryUsageBytesFromGroups
  split
  · exact Grows.const (.ok 0)
  · exact Grows.sumPy fun spec _ => maxMemoryUsageBytes_grows c spec
  · apply Grows.after
      (getUniformPageSize (kvCacheGroups.map fun g => g.kvCacheSpec))
    intro pageSize
    apply Grows.map
    · apply Grows.sumPy
      intro g _
      exact Grows.cdivPy (g.kvCacheSpec.maxMemoryUsageBytes_grows c) pageSize
    · intro a b hab
      exact Int.mul_le_mul_of_nonneg_left hab (by positivity)

/-! ## The search -/

@[simp] theorem VllmConfig.withMaxModelLen_withMaxModelLen (c : VllmConfig) (m n : Nat) :
    (c.withMaxModelLen m).withMaxModelLen n = c.withMaxModelLen n := rfl

def Fits (usage : VllmConfig → Py Int) (availableMemory : Int) (c : VllmConfig) (n : Nat) : Prop :=
  ∃ memoryNeeded, usage (c.withMaxModelLen n) = .ok memoryNeeded ∧ memoryNeeded ≤ availableMemory

def FittingLengths (usage : VllmConfig → Py Int) (availableMemory : Int) (c : VllmConfig) :
    Set Nat :=
  {n | 1 ≤ n ∧ n ≤ c.maxModelLen ∧ Fits usage availableMemory c n}

/-- What the search should do: leave the configuration as it was, and return the greatest
length that fits, or 0 if there is none, or fail where the memory cannot be computed. -/
structure SearchOptimal (usage : VllmConfig → Py Int) (availableMemory : Int) (c : VllmConfig)
    (out : Py Nat × VllmConfig) : Prop where
  restored : out.2 = c
  found : ∀ n, out.1 = .ok n → 0 < n → IsGreatest (FittingLengths usage availableMemory c) n
  none : out.1 = .ok 0 → FittingLengths usage availableMemory c = ∅
  failed : ∀ e, out.1 = .error e → ∀ n, usage (c.withMaxModelLen n) = .error e

section

variable {usage : VllmConfig → Py Int} {availableMemory : Int} {c : VllmConfig}

theorem fitsInMemory_eq {f : Nat → Int} (hf : ∀ n, usage (c.withMaxModelLen n) = .ok (f n))
    (k n : Nat) : fitsInMemory usage availableMemory n (c.withMaxModelLen k) =
      (.ok (decide (f n ≤ availableMemory)), c.withMaxModelLen n) := by
  unfold fitsInMemory
  dsimp only
  rw [VllmConfig.withMaxModelLen_withMaxModelLen, hf]
  rfl

variable {f : Nat → Int}

/-- The loop ends at the greatest length that fits, with the last probe in the
configuration. -/
theorem searchLoop_isGreatest (hmono : Monotone f)
    (hf : ∀ n, usage (c.withMaxModelLen n) = .ok (f n)) {last : Nat} :
    ∀ {fuel left right result k : Nat},
      Bisecting {n | f n ≤ availableMemory} last left right result → right + 1 - left < fuel →
      ∃ n k', searchLoop (fitsInMemory usage availableMemory) fuel left right result
          (c.withMaxModelLen k) = (.ok n, c.withMaxModelLen k') ∧
        IsGreatest {n | n ≤ last ∧ n ∈ {n | f n ≤ availableMemory}} n := by
  have hlower : IsLowerSet {n | f n ≤ availableMemory} := fun a b hba ha => (hmono hba).trans ha
  intro fuel
  induction fuel with
  | zero => exact fun _ hfuel => absurd hfuel (not_lt_zero _)
  | succ fuel ih =>
    intro left right result k hsearch hfuel
    have hpos := hsearch.pos
    unfold searchLoop
    split
    next hle =>
      have hlow := Bisecting.le_mid hle
      have hhigh := Bisecting.mid_le hle
      dsimp only
      rw [fitsInMemory_eq hf]
      by_cases hfits : f ((left + right) / 2) ≤ availableMemory
      · rw [decide_eq_true hfits]
        exact ih (hsearch.accept hle hfits) (by omega)
      · rw [decide_eq_false hfits]
        exact ih (hsearch.reject hlower hle hfits) (by omega)
    next hdone => exact ⟨result, k, rfl, hsearch.isGreatest (Nat.lt_of_not_le hdone)⟩

theorem fits_iff (hf : ∀ n, usage (c.withMaxModelLen n) = .ok (f n)) (n : Nat) :
    Fits usage availableMemory c n ↔ f n ≤ availableMemory := by
  unfold Fits
  rw [hf n]
  constructor
  · rintro ⟨needed, heq, hle⟩
    cases heq
    exact hle
  · exact fun hle => ⟨f n, rfl, hle⟩

theorem estimateWith_ok (availableMemory : Int) (hlen : 0 < c.maxModelLen) (hmono : Monotone f)
    (hf : ∀ n, usage (c.withMaxModelLen n) = .ok (f n)) :
    ∃ n, estimateWith usage availableMemory c = (.ok n, c) ∧
      if f 1 ≤ availableMemory then IsGreatest (FittingLengths usage availableMemory c) n
      else n = 0 := by
  have hfirst : fitsInMemory usage availableMemory 1 c = _ := fitsInMemory_eq hf c.maxModelLen 1
  unfold estimateWith
  dsimp only
  rw [hfirst]
  by_cases hone : f 1 ≤ availableMemory
  · obtain ⟨n, k, hloop, ⟨hle, hmem⟩, hupper⟩ := searchLoop_isGreatest hmono hf
      (Bisecting.start hlen hone) (lt_succ_self c.maxModelLen) (k := 1)
    simp only [decide_eq_true hone, if_pos hone]
    rw [hloop]
    refine ⟨n, rfl, ⟨hupper ⟨hlen, hone⟩, hle, (fits_iff hf n).mpr hmem⟩, ?_⟩
    rintro m ⟨-, hmle, hfits⟩
    exact hupper ⟨hmle, (fits_iff hf m).mp hfits⟩
  · simp only [decide_eq_false hone, if_neg hone]
    exact ⟨0, rfl, rfl⟩

theorem estimateWith_optimal (hlen : 0 < c.maxModelLen)
    (hgrows : Grows fun n => usage (c.withMaxModelLen n)) :
    SearchOptimal usage availableMemory c (estimateWith usage availableMemory c) := by
  rcases hgrows with ⟨f, hmono, hf⟩ | ⟨e, hfail⟩
  · obtain ⟨n, heq, hn⟩ := estimateWith_ok availableMemory hlen hmono hf
    rw [heq]
    refine ⟨rfl, ?_, ?_, ?_⟩
    · rintro m hm hpos
      cases hm
      split at hn
      · exact hn
      · omega
    · intro hzero
      cases hzero
      split at hn
      · have hone := hn.1.1
        omega
      next hone =>
        rw [Set.eq_empty_iff_forall_notMem]
        rintro m ⟨hpos, -, hfits⟩
        exact hone ((hmono hpos).trans ((fits_iff hf m).mp hfits))
    · intro e he
      cases he
  · have hout : estimateWith usage availableMemory c = (.error e, c) := by
      have hfirst : fitsInMemory usage availableMemory 1 c = (.error e, c.withMaxModelLen 1) := by
        unfold fitsInMemory
        dsimp only
        rw [show usage (c.withMaxModelLen 1) = .error e from hfail 1]
        rfl
      unfold estimateWith
      dsimp only
      rw [hfirst]
      rfl
    rw [hout]
    refine ⟨rfl, fun n hn => (by cases hn), fun hn => (by cases hn), ?_⟩
    intro e' he' n
    cases he'
    exact hfail n

end

/-! ## The auto-fit -/

variable {projected : List (List (KVCacheGroupSpec N))}

theorem exists_first (hworkers : projected.length = availableMemory.length)
    (hgroups : ¬projected.all List.isEmpty = true) : ∃ x, pyGet availableMemory 0 = .ok x := by
  cases availableMemory with
  | nil =>
    rw [length_nil, length_eq_zero_iff] at hworkers
    rw [hworkers] at hgroups
    exact absurd rfl hgroups
  | cons x xs => exact ⟨x, pyGet_first x xs⟩

def FitsAll (workers : List (List (KVCacheGroupSpec N) × Int)) (c : VllmConfig) (n : Nat) : Prop :=
  ∀ worker ∈ workers, worker.1 ≠ [] →
    Fits (fun c => maxMemoryUsageBytesFromGroups c worker.1) worker.2 c n

def FittingEverywhere (projected : List (List (KVCacheGroupSpec N))) (availableMemory : List Int)
    (c : VllmConfig) : Set Nat :=
  {n | 1 ≤ n ∧ n ≤ c.maxModelLen ∧ FitsAll (projected.zip availableMemory) c n}

/-- What the auto-fit should do: leave the greatest length that fits on all workers in the
configuration, or fail without a change where there is none. -/
structure AutoFitOptimal (projected : List (List (KVCacheGroupSpec N)))
    (availableMemory : List Int) (c : VllmConfig) (out : Py Unit × VllmConfig) : Prop where
  found : out.1 = .ok () → ∃ n, out.2 = c.withMaxModelLen n ∧
    IsGreatest (FittingEverywhere projected availableMemory c) n
  failed : ∀ e, out.1 = .error e →
    out.2 = c ∧ FittingEverywhere projected availableMemory c = ∅

theorem SearchOptimal.le_iff {usage : VllmConfig → Py Int} {availableMemory : Int}
    {out : Py Nat × VllmConfig} (h : SearchOptimal usage availableMemory c out)
    (hgrows : Grows fun n => usage (c.withMaxModelLen n)) {n m : Nat} (hn : out.1 = .ok n)
    (hpos : 1 ≤ m) (hle : m ≤ c.maxModelLen) : m ≤ n ↔ Fits usage availableMemory c m := by
  constructor
  · intro hmn
    obtain ⟨⟨-, -, hfits⟩, -⟩ := h.found n hn (by omega)
    rcases hgrows with ⟨f, hmono, hf⟩ | ⟨e, hfail⟩
    · exact (fits_iff hf m).mpr ((hmono hmn).trans ((fits_iff hf n).mp hfits))
    · obtain ⟨needed, heq, -⟩ := hfits
      rw [show usage (c.withMaxModelLen n) = .error e from hfail n] at heq
      cases heq
  · intro hfits
    rcases Nat.eq_zero_or_pos n with rfl | hnpos
    · have hmem : m ∈ FittingLengths usage availableMemory c := ⟨hpos, hle, hfits⟩
      rw [h.none hn] at hmem
      exact absurd hmem (Set.notMem_empty m)
    · exact (h.found n hn hnpos).2 ⟨hpos, hle, hfits⟩

theorem estimateFromGroups_optimal (hlen : 0 < c.maxModelLen)
    (kvCacheGroups : List (KVCacheGroupSpec N)) (availableMemory : Int) :
    SearchOptimal (fun c => maxMemoryUsageBytesFromGroups c kvCacheGroups) availableMemory c
      (estimateFromGroups kvCacheGroups availableMemory c) :=
  estimateWith_optimal hlen (maxMemoryUsageBytesFromGroups_grows c kvCacheGroups)

theorem autoFitLoop_spec (hlen : 0 < c.maxModelLen) :
    ∀ (workers : List (List (KVCacheGroupSpec N) × Int)) (autoFitMax : Nat),
      (∃ n, autoFitLoop workers autoFitMax c = (.ok n, c) ∧
        ∀ m, 1 ≤ m → m ≤ c.maxModelLen → (m ≤ n ↔ m ≤ autoFitMax ∧ FitsAll workers c m)) ∨
      ∃ e, autoFitLoop workers autoFitMax c = (.error e, c) ∧ ∀ m, ¬FitsAll workers c m := by
  intro workers
  induction workers with
  | nil =>
    intro autoFitMax
    refine .inl ⟨autoFitMax, rfl, ?_⟩
    intro m _ _
    exact (and_iff_left fun worker hmem => absurd hmem not_mem_nil).symm
  | cons worker workers ih =>
    intro autoFitMax
    obtain ⟨groups, availMem⟩ := worker
    have hcons : ∀ m, FitsAll ((groups, availMem) :: workers) c m ↔
        (groups ≠ [] → Fits (fun c => maxMemoryUsageBytesFromGroups c groups) availMem c m) ∧
          FitsAll workers c m := fun m => forall_mem_cons
    simp only [hcons]
    unfold autoFitLoop
    split
    next hempty =>
      have hnil : groups = [] := isEmpty_iff.mp hempty
      simp only [hnil, ne_eq, not_true_eq_false, false_implies, true_and]
      exact ih autoFitMax
    next hne =>
      have hgroups : groups ≠ [] := fun hnil => hne (isEmpty_iff.mpr hnil)
      have hoptimal := estimateFromGroups_optimal hlen groups availMem
      have hrestored := hoptimal.restored
      cases hout : estimateFromGroups groups availMem c with
      | mk res c' =>
        rw [hout] at hoptimal hrestored
        obtain rfl : c' = c := hrestored
        cases res with
        | error e =>
          refine .inr ⟨e, rfl, ?_⟩
          rintro m ⟨hfits, -⟩
          obtain ⟨needed, heq, -⟩ := hfits hgroups
          have hboth := heq.symm.trans (hoptimal.failed e rfl m)
          cases hboth
        | ok workerMax =>
          have hiff := fun m => hoptimal.le_iff (m := m)
            (maxMemoryUsageBytesFromGroups_grows c' groups) rfl
          rcases ih (if workerMax < autoFitMax then workerMax else autoFitMax) with
            ⟨n, hloop, hn⟩ | ⟨e, hloop, hnone⟩
          · refine .inl ⟨n, hloop, ?_⟩
            intro m hpos hle
            rw [hn m hpos hle]
            have hmin : (m ≤ if workerMax < autoFitMax then workerMax else autoFitMax) ↔
                m ≤ autoFitMax ∧ m ≤ workerMax := by
              split <;> omega
            rw [hmin, hiff m hpos hle, and_assoc]
            simp only [hgroups, ne_eq, not_false_eq_true, true_implies]
          · exact .inr ⟨e, hloop, fun m hfits => hnone m hfits.2⟩

theorem fitsAll_of_isEmpty (h : projected.all List.isEmpty = true) (availableMemory : List Int)
    (c : VllmConfig) (n : Nat) : FitsAll (projected.zip availableMemory) c n := by
  intro worker hmem hne
  have hempty := all_eq_true.mp h worker.1 (of_mem_zip hmem).1
  exact absurd (isEmpty_iff.mp hempty) hne

theorem autoFit_optimal (hworkers : projected.length = availableMemory.length)
    (hlen : 0 < c.maxModelLen) :
    AutoFitOptimal projected availableMemory c (autoFit projected availableMemory c) := by
  unfold autoFit
  split
  next hempty =>
    refine ⟨?_, fun e he => (by cases he)⟩
    intro _
    refine ⟨c.maxModelLen, rfl, ⟨hlen, le_rfl, fitsAll_of_isEmpty hempty _ _ _⟩, ?_⟩
    exact fun m hm => hm.2.1
  next hgroups =>
    obtain ⟨x, hx⟩ := exists_first hworkers hgroups
    rw [hx]
    dsimp only
    rcases autoFitLoop_spec hlen (projected.zip availableMemory) c.maxModelLen with
      ⟨n, hloop, hn⟩ | ⟨e, hloop, hnone⟩
    · rw [hloop]
      dsimp only
      split
      next hzero =>
        refine ⟨fun h => (by cases h), ?_⟩
        intro _ _
        refine ⟨rfl, Set.eq_empty_iff_forall_notMem.mpr ?_⟩
        rintro m ⟨hpos, hle, hfits⟩
        have hmn := (hn m hpos hle).mpr ⟨hle, hfits⟩
        omega
      next hpos =>
        split
        next hfull =>
          refine ⟨?_, fun e he => (by cases he)⟩
          intro _
          refine ⟨c.maxModelLen, rfl, ⟨hlen, le_rfl, ?_⟩, fun m hm => hm.2.1⟩
          exact ((hn c.maxModelLen hlen le_rfl).mp hfull).2
        next hpart =>
          refine ⟨?_, fun e he => (by cases he)⟩
          intro _
          have hone : 1 ≤ n := by omega
          have hle : n ≤ c.maxModelLen := by omega
          refine ⟨n, rfl, ⟨hone, hle, ((hn n hone hle).mp le_rfl).2⟩, ?_⟩
          rintro m ⟨hpos, hmle, hfits⟩
          exact (hn m hpos hmle).mpr ⟨hmle, hfits⟩
    · rw [hloop]
      refine ⟨fun h => (by cases h), ?_⟩
      intro _ _
      refine ⟨rfl, Set.eq_empty_iff_forall_notMem.mpr ?_⟩
      exact fun m hm => hnone m hm.2.2

/-! ## Every search -/

/-- The memory of every specification grows with the maximum model length, and every search
for it is optimal and leaves the configuration as it was. -/
theorem max_model_len_optimal {c : VllmConfig} (hlen : 0 < c.maxModelLen) :
    (∀ s : KVCacheSpec, Grows fun n => s.maxMemoryUsageBytes (c.withMaxModelLen n)) ∧
    (∀ g : GroupSpec N, Grows fun n => g.maxMemoryUsageBytes (c.withMaxModelLen n)) ∧
    (∀ (kvCacheSpec : Dict N KVCacheSpec) (availableMemory : Int),
      SearchOptimal (fun c => maxMemoryUsageBytes c kvCacheSpec.values) availableMemory c
        (estimateMaxModelLen kvCacheSpec availableMemory c)) ∧
    (∀ (kvCacheGroups : List (KVCacheGroupSpec N)) (availableMemory : Int),
      SearchOptimal (fun c => maxMemoryUsageBytesFromGroups c kvCacheGroups) availableMemory c
        (estimateFromGroups kvCacheGroups availableMemory c)) ∧
    ∀ (projected : List (List (KVCacheGroupSpec N))) (availableMemory : List Int),
      projected.length = availableMemory.length →
        AutoFitOptimal projected availableMemory c (autoFit projected availableMemory c) := by
  refine ⟨maxMemoryUsageBytes_grows c, fun g => g.maxMemoryUsageBytes_grows c, ?_, ?_, ?_⟩
  · intro kvCacheSpec availableMemory
    exact estimateWith_optimal hlen (Grows.sumPy fun s _ => maxMemoryUsageBytes_grows c s)
  · exact estimateFromGroups_optimal hlen
  · exact fun projected availableMemory hworkers => autoFit_optimal hworkers hlen

def fourByteLayer : Dict String KVCacheSpec :=
  Dict.empty.set "layer" ⟨2,
    .fullAttention { numKvHeads := 1, headSize := 1, dtype := ⟨"uint8", 1⟩ }
    1 none none, succ_pos 1⟩

def eightTokenConfig : VllmConfig where
  maxModelLen := 8
  maxNumBatchedTokens := 4

/-- In nine bytes there is room for two pages, so for four of the eight tokens. -/
theorem max_model_len_optimal_nineBytes :
    (estimateMaxModelLen fourByteLayer 9 eightTokenConfig).1 = .ok 4 ∧
      (estimateMaxModelLen fourByteLayer 9 eightTokenConfig).2 = eightTokenConfig ∧
      IsGreatest (FittingLengths (fun c => maxMemoryUsageBytes c fourByteLayer.values) 9
        eightTokenConfig) 4 := by
  have hlen : 0 < eightTokenConfig.maxModelLen := succ_pos 7
  have hout : (estimateMaxModelLen fourByteLayer 9 eightTokenConfig).1 = .ok 4 := by rfl
  have hoptimal := (max_model_len_optimal (N := String) hlen).2.2.1 fourByteLayer 9
  exact ⟨hout, hoptimal.restored, hoptimal.found 4 hout (succ_pos 3)⟩

end VllmCore.KVCacheUtils
