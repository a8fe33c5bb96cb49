import Mathlib.Data.Nat.Basic
import Mathlib.Tactic.Common
import Mathlib.Tactic.Ring

/-!
# Tuning policies and shared memory (`muh/tuning`)

`scale_mem_bound`, `scale_reg` and `make_safe_policy` choose a tile of threads and items. An `int`
that overflows has no value: these functions are constant expressions.

- `capThreads_fits_iff`: the cap of the threads is rounded up to a warp after the division, so it
  holds the budget only for a whole number of warps.
- `tuning_fits_iff`: when the three tiles fit the 48 KB of a block.
-/

namespace Bi100.Tuning

/-- A value of type `int`. -/
def int? (n : Nat) : Option Nat := if n < 2 ^ 31 then some n else none

/-- The shared memory of a block, in bytes. -/
def maxSmem : Nat := 48 * 1024

/-- `((raw + 31) / 32) * 32` -/
def roundUpWarp (raw : Nat) : Nat := (raw + 31) / 32 * 32

/-- `scaling_result` -/
structure ScalingResult where
  itemsPerThread : Nat
  threadsPerBlock : Nat
deriving DecidableEq, Repr

/-- The cap of the threads, and the floor of one warp. -/
def capThreads (nominalThreads smemPerThread maxSmem : Nat) : Nat :=
  let maxThreads :=
    if 0 < smemPerThread then roundUpWarp (maxSmem / smemPerThread) else nominalThreads
  let threads := if nominalThreads < maxThreads then nominalThreads else maxThreads
  if threads < 32 then 32 else threads

/-- The items, between one and a bound. -/
def clampItems (items upper : Nat) : Nat :=
  let items := if items < 1 then 1 else items
  if upper < items then upper else items

/-- `scale_mem_bound` -/
def scaleMemBound (nominal4BThreads nominal4BItems targetTypeSize maxSmem : Nat) :
    Option ScalingResult := do
  let scaled ← int? (nominal4BItems * 4)
  let upper ← int? (nominal4BItems * 2)
  let items := clampItems (scaled / targetTypeSize) upper
  let smemPerThread ← int? (targetTypeSize * items)
  some ⟨items, capThreads nominal4BThreads smemPerThread maxSmem⟩

/-- `scale_reg` -/
def scaleReg (nominalThreads nominal4bItems typeSize : Nat) : Option ScalingResult := do
  let ts := if 4 < typeSize then typeSize else 4
  let scaled ← int? (nominal4bItems * 4)
  let items := clampItems (scaled / ts) nominal4bItems
  let smemPerThread ← int? (typeSize * items)
  some ⟨items, capThreads nominalThreads smemPerThread 49152⟩

inductive BlockLoadAlgorithm where
  | direct
  | vectorize
  | transpose
  | warpTranspose
  | warpTransposeTimesliced
  | striped
deriving DecidableEq, Repr

/-- The bytes of a tile: the items, a staging buffer, the flags and the scan. -/
def tileBytes (threads items elemSz : Nat) (flagged warpTranspose : Bool) : Nat :=
  (if warpTranspose then threads * items * elemSz * 2 else threads * items * elemSz) +
    (if flagged then threads * items else 0) + 1024

/-- `smem_safe` -/
def smemSafe (threads items elemSz : Nat) (flagged warpTranspose : Bool) : Option Bool := do
  let count ← int? (threads * items)
  let tile ← int? (count * elemSz)
  let tile ← int? (if warpTranspose then tile * 2 else tile)
  let tile ← int? (tile + if flagged then count else 0)
  let tile ← int? (tile + 1024)
  some (decide (tile ≤ 49152))

/-- `scale_items` -/
def scaleItems (nominal4b elemSz : Nat) : Option Nat :=
  if elemSz ≤ 4 then some nominal4b
  else do
    let scaled ← int? (nominal4b * 4)
    some (if 0 < scaled / elemSz then scaled / elemSz else 1)

/-- The loop over the items. -/
def reduceItems (safe : Nat → Option Bool) : Nat → Option Nat
  | 0 => do
    let _ ← safe 0
    some 0
  | items + 1 => do
    let ok ← safe (items + 1)
    if ok then some (items + 1)
    else if 1 < items + 1 then reduceItems safe items
    else some (items + 1)

/-- The loop over the threads. -/
def reduceThreads (safe : Nat → Option Bool) (threads : Nat) : Option Nat := do
  let ok ← safe threads
  if ok then some threads
  else if 32 < threads then reduceThreads safe (threads - 32)
  else some threads
termination_by threads

/-- `make_safe_policy`; the load algorithm, the load modifier and the delay are passed on. -/
def makeSafePolicy (inputSize flagSize threads nominal4bItems : Nat)
    (loadAlg : BlockLoadAlgorithm) : Option ScalingResult := do
  let items ← scaleItems nominal4bItems inputSize
  let wt := decide (loadAlg = .warpTranspose)
  let fl := decide (0 < flagSize)
  let items ← reduceItems (fun items => smemSafe threads items inputSize fl wt) items
  let threads ← reduceThreads (fun threads => smemSafe threads items inputSize fl wt) threads
  some ⟨items, threads⟩

/-! ## What a tile must satisfy -/

/-- A tile is chosen, and it fits. -/
def Fits (nominalThreads : Nat) (bytes : Nat → Nat → Nat) (tile : Option ScalingResult) : Prop :=
  ∃ t, tile = some t ∧ 1 ≤ t.itemsPerThread ∧ 32 ∣ t.threadsPerBlock ∧ 32 ≤ t.threadsPerBlock ∧
    t.threadsPerBlock ≤ nominalThreads ∧ bytes t.threadsPerBlock t.itemsPerThread ≤ maxSmem

theorem int?_eq_some {n m : Nat} : int? n = some m ↔ n < 2 ^ 31 ∧ m = n := by
  unfold int?
  by_cases h : n < 2 ^ 31
  · rw [if_pos h, Option.some.injEq]
    exact ⟨fun hm => ⟨h, hm.symm⟩, fun hm => hm.2.symm⟩
  · rw [if_neg h]
    exact iff_of_false (Option.some_ne_none m).symm fun hm => h hm.1

theorem roundUpWarp_spec (raw : Nat) :
    raw ≤ roundUpWarp raw ∧ roundUpWarp raw < raw + 32 ∧ 32 ∣ roundUpWarp raw := by
  refine ⟨?_, ?_, Nat.dvd_mul_left _ _⟩ <;> unfold roundUpWarp <;> omega

/-- The budget is a whole number of warps, or it is not reached. -/
def WholeWarps (nominalThreads smemPerThread : Nat) : Prop :=
  32 ≤ nominalThreads ∧ (nominalThreads * smemPerThread ≤ maxSmem ∨
    (0 < maxSmem / smemPerThread ∧ 32 ∣ maxSmem / smemPerThread))

variable {nominalThreads : Nat}

/-- **The cap holds the budget exactly for whole warps.** -/
theorem capThreads_fits_iff (hT : 32 ∣ nominalThreads) {b : Nat} (hb : 0 < b) :
    (32 ∣ capThreads nominalThreads b maxSmem ∧ 32 ≤ capThreads nominalThreads b maxSmem ∧
      capThreads nominalThreads b maxSmem ≤ nominalThreads ∧
      capThreads nominalThreads b maxSmem * b ≤ maxSmem) ↔ WholeWarps nominalThreads b := by
  obtain ⟨hle, hlt, hdvd⟩ := roundUpWarp_spec (maxSmem / b)
  have hfit : ∀ t, t * b ≤ maxSmem ↔ t ≤ maxSmem / b := fun t =>
    (Nat.le_div_iff_mul_le hb).symm
  unfold WholeWarps
  rw [hfit, hfit]
  unfold capThreads
  rw [if_pos hb]
  dsimp only
  generalize maxSmem / b = raw at *
  generalize roundUpWarp raw = cap at *
  by_cases hcap : nominalThreads < cap
  · rw [if_pos hcap]
    split <;> omega
  · rw [if_neg hcap]
    split <;> omega

/-! ## The two scalings -/

theorem clampItems_pos (items : Nat) {upper : Nat} (h : 1 ≤ upper) : 1 ≤ clampItems items upper := by
  unfold clampItems
  dsimp only
  split <;> split <;> omega

theorem clampItems_le (items upper : Nat) : clampItems items upper ≤ max 1 items := by
  unfold clampItems
  dsimp only
  split <;> split <;> omega

/-- The bytes of a thread are an `int` when the scaled items are. -/
theorem mul_clampItems_lt {size divisor scaled : Nat} (upper : Nat) (hsize : size < 2 ^ 31)
    (hle : size ≤ divisor) (hscaled : scaled < 2 ^ 31) :
    size * clampItems (scaled / divisor) upper < 2 ^ 31 := by
  have hitems := Nat.mul_le_mul_left size (clampItems_le (scaled / divisor) upper)
  have hdiv : size * (scaled / divisor) ≤ scaled :=
    (Nat.mul_le_mul_right _ hle).trans (Nat.mul_div_le scaled divisor)
  rcases Nat.le_total 1 (scaled / divisor) with hone | hone
  · rw [Nat.max_eq_right hone] at hitems
    omega
  · rw [Nat.max_eq_left hone] at hitems
    omega

/-- The two scalings differ in the divisor and in the bound of the items. -/
theorem scaled_fits_iff (hT : 32 ∣ nominalThreads) {size items : Nat} (hsize : 1 ≤ size)
    (hitems : 1 ≤ items) : Fits nominalThreads (fun t i => t * i * size)
      (some ⟨items, capThreads nominalThreads (size * items) maxSmem⟩) ↔
    WholeWarps nominalThreads (size * items) := by
  rw [← capThreads_fits_iff hT (Nat.mul_pos hsize hitems)]
  have hassoc : ∀ t, t * (size * items) = t * items * size := fun t => by
    rw [Nat.mul_comm size, Nat.mul_assoc]
  rw [hassoc]
  constructor
  · rintro ⟨t, ht, -, hdvd, hle, hnominal, hbytes⟩
    obtain rfl := Option.some.inj ht
    exact ⟨hdvd, hle, hnominal, hbytes⟩
  · rintro ⟨hdvd, hle, hnominal, hbytes⟩
    exact ⟨_, rfl, hitems, hdvd, hle, hnominal, hbytes⟩

variable {nominalItems size : Nat}

theorem scaleMemBound_fits_iff (hT : 32 ∣ nominalThreads) (hN : 1 ≤ nominalItems)
    (hsize : 1 ≤ size) (hwarp : 32 * size ≤ maxSmem) :
    Fits nominalThreads (fun t i => t * i * size)
        (scaleMemBound nominalThreads nominalItems size maxSmem) ↔
      nominalItems * 4 < 2 ^ 31 ∧ WholeWarps nominalThreads
        (size * clampItems (nominalItems * 4 / size) (nominalItems * 2)) := by
  have hmax : maxSmem = 49152 := rfl
  unfold scaleMemBound
  by_cases hint : nominalItems * 4 < 2 ^ 31
  · rw [int?_eq_some.mpr ⟨hint, rfl⟩, int?_eq_some.mpr ⟨by omega, rfl⟩]
    dsimp only [Option.bind_eq_bind, Option.bind_some]
    rw [int?_eq_some.mpr ⟨mul_clampItems_lt _ (by omega) (Nat.le_refl _) hint, rfl⟩,
      Option.bind_some, and_iff_right hint]
    exact scaled_fits_iff hT hsize (clampItems_pos _ (by omega))
  · refine iff_of_false ?_ fun h => hint h.1
    rintro ⟨t, ht, -⟩
    rw [int?, if_neg hint] at ht
    exact absurd ht (Option.some_ne_none t).symm

theorem scaleReg_fits_iff (hT : 32 ∣ nominalThreads) (hN : 1 ≤ nominalItems)
    (hsize : 1 ≤ size) (hwarp : 32 * size ≤ maxSmem) :
    Fits nominalThreads (fun t i => t * i * size) (scaleReg nominalThreads nominalItems size) ↔
      nominalItems * 4 < 2 ^ 31 ∧ WholeWarps nominalThreads
        (size * clampItems (nominalItems * 4 / max size 4) nominalItems) := by
  have hmax : maxSmem = 49152 := rfl
  have hts : (if 4 < size then size else 4) = max size 4 := by
    split <;> omega
  unfold scaleReg
  rw [hts]
  by_cases hint : nominalItems * 4 < 2 ^ 31
  · rw [int?_eq_some.mpr ⟨hint, rfl⟩]
    dsimp only [Option.bind_eq_bind, Option.bind_some]
    rw [int?_eq_some.mpr ⟨mul_clampItems_lt _ (by omega) (Nat.le_max_left _ _) hint, rfl⟩,
      Option.bind_some, and_iff_right hint]
    exact scaled_fits_iff hT hsize (clampItems_pos _ hN)
  · refine iff_of_false ?_ fun h => hint h.1
    rintro ⟨t, ht, -⟩
    rw [int?, if_neg hint] at ht
    exact absurd ht (Option.some_ne_none t).symm

/-! ## `make_safe_policy` -/

variable {flagged warpTranspose : Bool}

theorem tileBytes_mono {threads threads' items items' : Nat} (ht : threads ≤ threads')
    (hi : items ≤ items') : tileBytes threads items size flagged warpTranspose ≤
      tileBytes threads' items' size flagged warpTranspose := by
  have hcount := Nat.mul_le_mul ht hi
  have hbytes := Nat.mul_le_mul_right size hcount
  unfold tileBytes
  cases flagged <;> cases warpTranspose <;> simp <;> omega

/-- A value that is below a later one needs no check of its own. -/
theorem int?_chain {β : Type} (a : Nat) (g : Nat → Nat) (hle : a ≤ g a)
    (f : Nat → Nat → Option β) :
    ((int? a).bind fun x => (int? (g x)).bind (f x)) = (int? (g a)).bind (f a) := by
  by_cases h : a < 2 ^ 31
  · rw [int?_eq_some.mpr ⟨h, rfl⟩, Option.bind_some]
  · rw [int?, if_neg h, int?, if_neg (by omega), Option.bind_none, Option.bind_none]

/-- The check has a value exactly when the bytes of the tile do. -/
theorem smemSafe_eq (hsize : 1 ≤ size) (threads items : Nat) :
    smemSafe threads items size flagged warpTranspose =
      (int? (tileBytes threads items size flagged warpTranspose)).map
        fun b => decide (b ≤ maxSmem) := by
  unfold smemSafe
  refine (int?_chain _ (· * size) (Nat.le_mul_of_pos_right _ hsize) _).trans ?_
  refine (int?_chain _ (fun tile => if warpTranspose then tile * 2 else tile) ?_ _).trans ?_
  · split <;> omega
  refine (int?_chain _ (fun tile => tile + if flagged then threads * items else 0)
    (Nat.le_add_right _ _) _).trans ?_
  refine (int?_chain _ (· + 1024) (Nat.le_add_right _ _) _).trans ?_
  rw [Option.map_eq_bind]
  rfl

/-- The items that are left: the tile is safe, or it has one item. -/
theorem reduceItems_spec {safe : Nat → Option Bool} {P : Nat → Prop} [DecidablePred P] {n : Nat}
    (hn : 1 ≤ n) (hsafe : ∀ i ≤ n, safe i = some (decide (P i))) :
    ∃ i, reduceItems safe n = some i ∧ 1 ≤ i ∧ i ≤ n ∧ (P i ∨ i = 1) := by
  induction n with
  | zero => omega
  | succ n ih =>
    rw [reduceItems, hsafe (n + 1) (Nat.le_refl _)]
    dsimp only [Option.bind_eq_bind, Option.bind_some]
    by_cases hP : P (n + 1)
    · rw [if_pos (decide_eq_true hP)]
      exact ⟨n + 1, rfl, hn, Nat.le_refl _, .inl hP⟩
    · rw [if_neg (by simpa using hP)]
      by_cases hone : 1 < n + 1
      · obtain ⟨i, hi, hpos, hle, hor⟩ := ih (by omega) fun i hi => hsafe i (by omega)
        rw [if_pos hone]
        exact ⟨i, hi, hpos, by omega, hor⟩
      · rw [if_neg hone]
        exact ⟨n + 1, rfl, hn, Nat.le_refl _, .inr (by omega)⟩

/-- The first check has a value. -/
theorem exists_safe_of_reduceItems {safe : Nat → Option Bool} {n i : Nat}
    (h : reduceItems safe n = some i) : ∃ ok, safe n = some ok := by
  cases n with
  | zero =>
    obtain ⟨ok, hok, -⟩ := Option.bind_eq_some_iff.mp h
    exact ⟨ok, hok⟩
  | succ n =>
    obtain ⟨ok, hok, -⟩ := Option.bind_eq_some_iff.mp h
    exact ⟨ok, hok⟩

/-- The threads that are left: the tile is safe, or it is one warp. -/
theorem reduceThreads_spec {safe : Nat → Option Bool} {P : Nat → Prop} [DecidablePred P] (m : Nat)
    (hsafe : ∀ t ≤ 32 * (m + 1), safe t = some (decide (P t))) :
    ∃ t, reduceThreads safe (32 * (m + 1)) = some t ∧ 32 ∣ t ∧ 32 ≤ t ∧ t ≤ 32 * (m + 1) ∧
      (P t ∨ t = 32) := by
  induction m with
  | zero =>
    rw [reduceThreads, hsafe _ (Nat.le_refl _)]
    dsimp only [Option.bind_eq_bind, Option.bind_some]
    rw [if_neg (show ¬ 32 < 32 * (0 + 1) by decide), ite_self]
    exact ⟨32, rfl, by decide, by decide, by decide, .inr rfl⟩
  | succ m ih =>
    rw [reduceThreads, hsafe _ (Nat.le_refl _)]
    dsimp only [Option.bind_eq_bind, Option.bind_some]
    by_cases hP : P (32 * (m + 1 + 1))
    · rw [if_pos (decide_eq_true hP)]
      exact ⟨_, rfl, Nat.dvd_mul_right _ _, by omega, Nat.le_refl _, .inl hP⟩
    · obtain ⟨t, ht, hdvd, hle, hbound, hor⟩ := ih fun t ht => hsafe t (by omega)
      have hsub : 32 * (m + 1 + 1) - 32 = 32 * (m + 1) := by omega
      rw [if_neg (by simpa using hP), if_pos (by omega), hsub]
      exact ⟨t, ht, hdvd, hle, by omega, hor⟩

/-- The items before the loops. -/
def safeItems (nominal4b elemSz : Nat) : Nat :=
  if elemSz ≤ 4 then nominal4b else max 1 (nominal4b * 4 / elemSz)

theorem scaleItems_eq_some {items : Nat} : scaleItems nominalItems size = some items ↔
    (4 < size → nominalItems * 4 < 2 ^ 31) ∧ items = safeItems nominalItems size := by
  unfold scaleItems safeItems
  by_cases hsize : size ≤ 4
  · rw [if_pos hsize, if_pos hsize, Option.some.injEq]
    exact ⟨fun h => ⟨fun h' => by omega, h.symm⟩, fun h => h.2.symm⟩
  · have hmax : (if 0 < nominalItems * 4 / size then nominalItems * 4 / size else 1) =
        max 1 (nominalItems * 4 / size) := by
      split <;> omega
    rw [if_neg hsize, if_neg hsize]
    by_cases hint : nominalItems * 4 < 2 ^ 31
    · rw [int?_eq_some.mpr ⟨hint, rfl⟩]
      dsimp only [Option.bind_eq_bind, Option.bind_some]
      rw [hmax, Option.some.injEq]
      exact ⟨fun h => ⟨fun _ => hint, h.symm⟩, fun h => h.2.symm⟩
    · rw [int?, if_neg hint]
      exact iff_of_false (Option.some_ne_none items).symm fun h => hint (h.1 (by omega))

/-- **`make_safe_policy` finds a tile that fits whenever one warp with one item does.** -/
theorem makeSafePolicy_fits_iff (hT : 32 ∣ nominalThreads) (hN : 1 ≤ nominalItems)
    (hsize : 1 ≤ size) (flagSize : Nat) (loadAlg : BlockLoadAlgorithm) :
    Fits nominalThreads (fun t i =>
        tileBytes t i size (decide (0 < flagSize)) (decide (loadAlg = .warpTranspose)))
      (makeSafePolicy size flagSize nominalThreads nominalItems loadAlg) ↔
    32 ≤ nominalThreads ∧ (4 < size → nominalItems * 4 < 2 ^ 31) ∧
      tileBytes nominalThreads (safeItems nominalItems size) size (decide (0 < flagSize))
        (decide (loadAlg = .warpTranspose)) < 2 ^ 31 ∧
      tileBytes 32 1 size (decide (0 < flagSize)) (decide (loadAlg = .warpTranspose)) ≤ maxSmem := by
  unfold makeSafePolicy
  generalize decide (0 < flagSize) = fl
  generalize decide (loadAlg = .warpTranspose) = wt
  constructor
  · rintro ⟨t, ht, hitems, -, hwarp, hnominal, hbytes⟩
    obtain ⟨items, hscale, ht⟩ := Option.bind_eq_some_iff.mp ht
    obtain ⟨items', hreduce, -⟩ := Option.bind_eq_some_iff.mp ht
    obtain ⟨hint, rfl⟩ := scaleItems_eq_some.mp hscale
    obtain ⟨ok, hok⟩ := exists_safe_of_reduceItems hreduce
    rw [smemSafe_eq hsize, Option.map_eq_some_iff] at hok
    obtain ⟨b, hb, -⟩ := hok
    exact ⟨hwarp.trans hnominal, hint, (int?_eq_some.mp hb).1,
      (tileBytes_mono hwarp hitems).trans hbytes⟩
  · rintro ⟨hwarp, hint, htile, hone⟩
    have hpos : 1 ≤ safeItems nominalItems size := by
      unfold safeItems
      split <;> omega
    have hsafe : ∀ t ≤ nominalThreads, ∀ i ≤ safeItems nominalItems size,
        smemSafe t i size fl wt = some (decide (tileBytes t i size fl wt ≤ maxSmem)) := by
      intro t ht i hi
      rw [smemSafe_eq hsize, int?_eq_some.mpr ⟨(tileBytes_mono ht hi).trans_lt htile, rfl⟩]
      rfl
    obtain ⟨i, hreduce, hi, hle, hitems⟩ := reduceItems_spec hpos
      (hsafe nominalThreads (Nat.le_refl _))
    obtain ⟨m, rfl⟩ : ∃ m, nominalThreads = 32 * (m + 1) := by
      obtain ⟨m, rfl⟩ := hT
      exact ⟨m - 1, by omega⟩
    obtain ⟨t, hthreads, hdvd, ht, hnominal, hfit⟩ := reduceThreads_spec m
      fun t ht => hsafe t ht i hle
    rw [scaleItems_eq_some.mpr ⟨hint, rfl⟩]
    dsimp only [Option.bind_eq_bind, Option.bind_some]
    rw [hreduce]
    dsimp only [Option.bind_some]
    rw [hthreads]
    refine ⟨⟨i, t⟩, rfl, hi, hdvd, ht, hnominal, ?_⟩
    rcases hfit with hfit | rfl
    · exact hfit
    · rcases hitems with hitems | rfl
      · exact (tileBytes_mono hnominal (Nat.le_refl i)).trans hitems
      · exact hone

/-! ## The three tiles -/

/-- **When the tiles fit.** -/
theorem tuning_fits_iff (hT : 32 ∣ nominalThreads) (hN : 1 ≤ nominalItems) (hsize : 1 ≤ size)
    (hwarp : 32 * size ≤ maxSmem) :
    (Fits nominalThreads (fun t i => t * i * size)
        (scaleMemBound nominalThreads nominalItems size maxSmem) ↔
      nominalItems * 4 < 2 ^ 31 ∧ WholeWarps nominalThreads
        (size * clampItems (nominalItems * 4 / size) (nominalItems * 2))) ∧
    (Fits nominalThreads (fun t i => t * i * size) (scaleReg nominalThreads nominalItems size) ↔
      nominalItems * 4 < 2 ^ 31 ∧ WholeWarps nominalThreads
        (size * clampItems (nominalItems * 4 / max size 4) nominalItems)) ∧
    ∀ flagSize loadAlg, Fits nominalThreads (fun t i =>
        tileBytes t i size (decide (0 < flagSize)) (decide (loadAlg = .warpTranspose)))
      (makeSafePolicy size flagSize nominalThreads nominalItems loadAlg) ↔
      32 ≤ nominalThreads ∧ (4 < size → nominalItems * 4 < 2 ^ 31) ∧
        tileBytes nominalThreads (safeItems nominalItems size) size (decide (0 < flagSize))
          (decide (loadAlg = .warpTranspose)) < 2 ^ 31 ∧
        tileBytes 32 1 size (decide (0 < flagSize)) (decide (loadAlg = .warpTranspose)) ≤ maxSmem :=
  ⟨scaleMemBound_fits_iff hT hN hsize hwarp, scaleReg_fits_iff hT hN hsize hwarp,
    makeSafePolicy_fits_iff hT hN hsize⟩

/-- A tile of 64 threads with one item of 1000 bytes, for a nominal tile of 1024 threads. -/
theorem tuning_overflows : ¬ ∀ nominalThreads nominalItems size : Nat, 32 ∣ nominalThreads →
    32 ≤ nominalThreads → 1 ≤ nominalItems → 1 ≤ size → 32 * size ≤ maxSmem →
    Fits nominalThreads (fun t i => t * i * size)
        (scaleMemBound nominalThreads nominalItems size maxSmem) ∧
      Fits nominalThreads (fun t i => t * i * size)
        (scaleReg nominalThreads nominalItems size) := by
  intro h
  obtain ⟨⟨t, ht, -, -, -, -, hbytes⟩, -⟩ :=
    h 1024 1 1000 (by decide) (by decide) (by decide) (by decide) (by decide)
  obtain rfl := Option.some.inj ((show scaleMemBound 1024 1 1000 maxSmem = some ⟨1, 64⟩ by
    decide).symm.trans ht)
  exact absurd hbytes (by decide)

theorem tuning_fits_iff_reduce :
    (Fits 512 (fun t i => t * i * 8) (scaleMemBound 512 16 8 maxSmem) ↔
      16 * 4 < 2 ^ 31 ∧ WholeWarps 512 (8 * clampItems (16 * 4 / 8) (16 * 2))) ∧
    (Fits 512 (fun t i => t * i * 8) (scaleReg 512 16 8) ↔
      16 * 4 < 2 ^ 31 ∧ WholeWarps 512 (8 * clampItems (16 * 4 / max 8 4) 16)) ∧
    ∀ flagSize loadAlg, Fits 512 (fun t i =>
        tileBytes t i 8 (decide (0 < flagSize)) (decide (loadAlg = .warpTranspose)))
      (makeSafePolicy 8 flagSize 512 16 loadAlg) ↔
      32 ≤ 512 ∧ (4 < 8 → 16 * 4 < 2 ^ 31) ∧
        tileBytes 512 (safeItems 16 8) 8 (decide (0 < flagSize))
          (decide (loadAlg = .warpTranspose)) < 2 ^ 31 ∧
        tileBytes 32 1 8 (decide (0 < flagSize)) (decide (loadAlg = .warpTranspose)) ≤ maxSmem :=
  tuning_fits_iff (by decide) (by decide) (by decide) (by decide)

end Bi100.Tuning
