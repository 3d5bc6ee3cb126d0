import Pglens.Lib.Rounding
import Pglens.Time
import Mathlib.Algebra.Order.Floor.Ring
import Mathlib.Data.Int.ConditionallyCompleteOrder
import Mathlib.Data.Rat.Floor
import Mathlib.Data.Set.Card

/-! ashResolution of internal/server picks the bucket from the length of a range. The buckets
themselves are those of time_bucket, which begin at multiples of their size from an origin. -/
namespace Pglens.Ash
open Pglens.Lib Duration

def ashWindowSeconds : ℤ := 10
def ashMaxPoints : ℤ := 180

section Code
variable (fl : Rounding float64s)

/-- Duration.Seconds, as the float64 that it computes. -/
def floatSeconds (d : ℤ) : ℚ :=
  let sec := d.tdiv second
  let nsec := d.tmod second
  fl.round (fl.round sec+fl.round (fl.round nsec/1000000000))

/-- The number of seconds that one of the points has to cover. -/
def pointSpan (since till : Time) : ℤ := ⌈fl.round (floatSeconds fl (till.sub since)/ashMaxPoints)⌉

def ashResolution (since till : Time) : ℤ :=
  let span := pointSpan fl since till
  if span≤ashWindowSeconds then ashWindowSeconds
  else (span+ashWindowSeconds-1).tdiv ashWindowSeconds*ashWindowSeconds

/-- The bucket of a grouped answer, in nanoseconds. -/
def bucketSize (since till : Time) : ℤ := ashResolution fl since till*second

end Code

/-- The buckets of a size that have an instant of the range, by their number from the origin. -/
def buckets (origin size : ℤ) (since till : Time) : Set ℤ :=
  {k | ∃ t, since.ns≤t ∧ t<till.ns ∧ origin+k*size ≤ t ∧ t<origin+(k+1)*size}

section Count
variable {size : ℤ} (origin : ℤ) (since till : Time)

lemma buckets_eq (hsize : 0<size) (h : since.ns<till.ns) : buckets origin size since till =
    Finset.Icc ((since.ns-origin)/size) ((till.ns-1-origin)/size) := by
  ext k
  simp only [buckets,Set.mem_ofPred_eq,Finset.coe_Icc,Set.mem_Icc]
  constructor
  · rintro ⟨t,hfrom,hto,hlow,hhigh⟩
    have hk : (t-origin)/size = k := by
      refine (Int.ediv_eq_iff_of_pos hsize).mpr ⟨?_,?_⟩ <;> nlinarith
    exact ⟨hk ▸ Int.ediv_le_ediv hsize (by omega),hk ▸ Int.ediv_le_ediv hsize (by omega)⟩
  · rintro ⟨hlow,hhigh⟩
    -- the later of the start of the range and the start of the bucket
    have hbegin := Int.lt_mul_of_ediv_lt hsize (Int.lt_add_one_of_le hlow)
    have hend := Int.mul_le_of_le_ediv hsize hhigh
    refine ⟨max since.ns (origin+k*size),le_max_left _ _,?_,le_max_right _ _,?_⟩
    · rw [max_lt_iff]
      omega
    · rw [max_lt_iff]
      constructor <;> nlinarith

lemma buckets_ncard (hsize : 0<size) (h : since.ns<till.ns) :
    ((buckets origin size since till).ncard : ℤ) =
      (till.ns-1-origin)/size-(since.ns-origin)/size+1 := by
  have hle : (since.ns-origin)/size ≤ (till.ns-1-origin)/size := Int.ediv_le_ediv hsize (by omega)
  rw [buckets_eq origin since till hsize h,Set.ncard_coe_finset,Int.card_Icc,Int.toNat_of_nonneg (by omega)]
  ring

lemma buckets_ncard_le_iff (n : ℤ) (hsize : 0<size) (h : since.ns<till.ns) :
    ((buckets origin size since till).ncard : ℤ) ≤ n ↔
      (since.ns-origin)%size+(till.ns-since.ns) ≤ n*size := by
  rw [buckets_ncard origin since till hsize h]
  have hdiv := Int.mul_ediv_add_emod (since.ns-origin) size
  have hstart : (till.ns-1-origin)/size-(since.ns-origin)/size+1 ≤ n ↔
      (till.ns-1-origin)/size < (since.ns-origin)/size+n := by omega
  rw [hstart,Int.ediv_lt_iff_lt_mul hsize]
  constructor <;> intro hlt <;> nlinarith

end Count

section Resolution
variable (fl : Rounding float64s)

lemma ashResolution_ge (since till : Time) :
    ashWindowSeconds ≤ ashResolution fl since till ∧ pointSpan fl since till ≤ ashResolution fl since till := by
  unfold ashResolution ashWindowSeconds
  dsimp only
  split_ifs with h
  · exact ⟨le_rfl,h⟩
  · rw [Int.tdiv_eq_ediv_of_nonneg (by omega)]
    omega

lemma bucketSize_pos (since till : Time) : 0 < bucketSize fl since till := by
  have h := (ashResolution_ge fl since till).1
  unfold ashWindowSeconds at h
  exact mul_pos (by omega) (by decide)

variable {n : ℤ} {since till : Time}

lemma floatSeconds_whole (h : |n| < 2^53) : floatSeconds fl (n*second) = n := by
  have hsec : (n*second).tdiv second = n := Int.mul_tdiv_cancel n (by decide)
  have hnsec : (n*second).tmod second = 0 := Int.mul_tmod_left n _
  unfold floatSeconds
  dsimp only
  rw [hsec,hnsec,Int.cast_zero,fl.round_zero,zero_div,fl.round_zero,add_zero,
    fl.round_intCast h,fl.round_intCast h]

lemma le_ceil_round (hpos : 0≤n) (h : n<2^44) : n ≤ ⌈fl.round (n/ashMaxPoints)⌉*ashMaxPoints := by
  by_contra hlt
  rw [not_le] at hlt
  generalize hq : (n : ℚ)/ashMaxPoints = q at hlt
  generalize hm : ⌈fl.round q⌉ = m at hlt
  have hn : (n : ℚ) = q*180 := by
    rw [← hq]
    norm_num [ashMaxPoints]
  have hround : fl.round q ≤ m := hm ▸ Int.le_ceil _
  have hnonneg : 0 ≤ m := by
    have hle : fl.round 0 ≤ fl.round q := fl.round_mono (by
      have : (0 : ℚ) ≤ n := by exact_mod_cast hpos
      linarith)
    rw [fl.round_zero] at hle
    exact hm ▸ Int.ceil_nonneg hle
  change m*180 < n at hlt
  have hmem : (m : ℚ)+1/256 ∈ float64s := by
    refine ⟨256*m+1,-8,?_,by decide,by decide,?_⟩
    · rw [abs_lt]
      omega
    · push_cast
      norm_num
      ring
  have hmiddle := Rounding.le_middle (f := fl.round q) (g := (m : ℚ)+1/256) (by linarith)
    (fl.nearest q _ hmem)
  have hstep : (m : ℚ)*180+1 ≤ n := by exact_mod_cast hlt
  linarith

theorem ceil_round_eq (hpos : 0≤n) (h : n<2^44) : ⌈fl.round (n/ashMaxPoints)⌉ = (n+179)/180 := by
  have hge := le_ceil_round fl hpos h
  have hle : ⌈fl.round (n/ashMaxPoints)⌉ ≤ (n+179)/180 := by
    have hspan : (n : ℚ)/ashMaxPoints ≤ ((n+179)/180 : ℤ) := by
      rw [div_le_iff₀ (by norm_num [ashMaxPoints])]
      have hup : n ≤ (n+179)/180*180 := by omega
      exact_mod_cast hup
    have hround := fl.round_mono hspan
    rw [fl.round_intCast (by rw [abs_lt]; omega)] at hround
    exact Int.ceil_le.mpr hround
  unfold ashMaxPoints at hge hle ⊢
  omega

lemma ashResolution_whole (h : since.ns<till.ns) (hwhole : till.ns-since.ns=n*second)
    (hmax : till.ns-since.ns ≤ maxDuration) :
    ashResolution fl since till = 10*max 1 ⌈(n : ℚ)/1800⌉ := by
  have hsecond : second=1000000000 := rfl
  have hpos : 0<n := by
    rw [hsecond] at hwhole
    omega
  have hbound : n < 2^44 := by
    rw [hsecond] at hwhole
    unfold maxDuration at hmax
    omega
  have hsub : till.sub since = n*second := by
    unfold Time.sub
    rw [if_neg (by omega),if_neg (by unfold minDuration; omega),hwhole]
  have hspan : pointSpan fl since till = (n+179)/180 := by
    unfold pointSpan
    rw [hsub,floatSeconds_whole fl (by rw [abs_lt]; omega),ceil_round_eq fl hpos.le hbound]
  have hceil : ⌈(n : ℚ)/1800⌉ = (n+1799)/1800 := by
    rw [Int.ceil_eq_iff,lt_div_iff₀ (by norm_num),div_le_iff₀ (by norm_num)]
    have hlow : ((n+1799)/1800-1)*1800 < n := by omega
    have hhigh : n ≤ (n+1799)/1800*1800 := by omega
    exact ⟨by exact_mod_cast hlow,by exact_mod_cast hhigh⟩
  unfold ashResolution ashWindowSeconds
  dsimp only
  rw [hspan,hceil]
  split_ifs with hle
  · omega
  · rw [Int.tdiv_eq_ediv_of_nonneg (by omega)]
    omega

lemma le_mul_bucketSize (h : since.ns<till.ns) (hwhole : till.ns-since.ns=n*second)
    (hmax : till.ns-since.ns ≤ maxDuration) :
    till.ns-since.ns ≤ ashMaxPoints*bucketSize fl since till := by
  have hres : n ≤ ashResolution fl since till*ashMaxPoints := by
    have hceil : (n : ℚ) ≤ ⌈(n : ℚ)/1800⌉*1800 := (div_le_iff₀ (by norm_num)).mp (Int.le_ceil _)
    have hceil' : n ≤ ⌈(n : ℚ)/1800⌉*1800 := by exact_mod_cast hceil
    rw [ashResolution_whole fl h hwhole hmax,ashMaxPoints]
    omega
  calc till.ns-since.ns = n*second := hwhole
    _ ≤ ashResolution fl since till*ashMaxPoints*second :=
      Int.mul_le_mul_of_nonneg_right hres (by decide)
    _ = ashMaxPoints*bucketSize fl since till := by unfold bucketSize; ring

/-- The points of a grouped answer stay in their budget when the range ends at most that many
buckets behind the start of the bucket it begins in. A range of whole seconds has a bucket of ten
seconds for each half hour begun, at most one point too many, and none when it begins with a
bucket. -/
theorem ash_points_budget (origin : ℤ) (since till : Time) (h : since.ns<till.ns) :
    (((buckets origin (bucketSize fl since till) since till).ncard : ℤ) ≤ ashMaxPoints ↔
      (since.ns-origin)%bucketSize fl since till+(till.ns-since.ns) ≤ ashMaxPoints*bucketSize fl since till) ∧
    ∀ n : ℤ, till.ns-since.ns = n*second → till.ns-since.ns ≤ maxDuration →
      ashResolution fl since till = 10*max 1 ⌈(n : ℚ)/1800⌉ ∧
      ((buckets origin (bucketSize fl since till) since till).ncard : ℤ) ≤ ashMaxPoints+1 ∧
      ((since.ns-origin)%bucketSize fl since till=0 →
        ((buckets origin (bucketSize fl since till) since till).ncard : ℤ) ≤ ashMaxPoints) := by
  have hsize := bucketSize_pos fl since till
  have hiff := fun n => buckets_ncard_le_iff origin since till n hsize h
  refine ⟨hiff _,fun n hwhole hmax => ?_⟩
  have hlen := le_mul_bucketSize fl h hwhole hmax
  have hmod := Int.emod_lt_of_pos (since.ns-origin) hsize
  rw [hiff,hiff]
  refine ⟨ashResolution_whole fl h hwhole hmax,?_,?_⟩
  · rw [add_mul,one_mul]
    omega
  · omega

end Resolution

def unixEpoch : ℤ := 62135596800*second

def sinceEpoch (seconds : ℤ) : Time := ⟨unixEpoch+seconds*second,0⟩

/-- Half an hour from the epoch on. -/
theorem ash_points_half_hour : ∃ fl : Rounding float64s,
    ((buckets unixEpoch (bucketSize fl (sinceEpoch 0) (sinceEpoch 1800)) (sinceEpoch 0)
      (sinceEpoch 1800)).ncard : ℤ) ≤ ashMaxPoints := by
  obtain ⟨fl⟩ := exists_float64
  have hbudget := ash_points_budget fl unixEpoch (sinceEpoch 0) (sinceEpoch 1800) (by decide)
  exact ⟨fl,(hbudget.2 1800 (by decide) (by decide)).2.2 (Int.zero_emod _)⟩

/-- Half an hour that begins five seconds into a bucket. -/
theorem ash_points_exceeded : ∃ fl : Rounding float64s,
    ashResolution fl (sinceEpoch 5) (sinceEpoch 1805) = 10 ∧
    (buckets unixEpoch (bucketSize fl (sinceEpoch 5) (sinceEpoch 1805)) (sinceEpoch 5)
      (sinceEpoch 1805)).ncard = 181 := by
  obtain ⟨fl⟩ := exists_float64
  have hres : ashResolution fl (sinceEpoch 5) (sinceEpoch 1805) = 10 := by
    rw [ashResolution_whole (n := 1800) fl (by decide) (by decide) (by decide)]
    norm_num
  refine ⟨fl,hres,?_⟩
  have hcard := buckets_ncard unixEpoch (sinceEpoch 5) (sinceEpoch 1805)
    (bucketSize_pos fl (sinceEpoch 5) (sinceEpoch 1805)) (by decide)
  unfold bucketSize at hcard ⊢
  rw [hres] at hcard ⊢
  have hcount : ((sinceEpoch 1805).ns-1-unixEpoch)/(10*second)-
      ((sinceEpoch 5).ns-unixEpoch)/(10*second)+1 = 181 := by decide
  exact_mod_cast hcard.trans hcount

end Pglens.Ash
