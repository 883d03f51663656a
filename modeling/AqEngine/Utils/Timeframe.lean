import Mathlib.Data.Int.ConditionallyCompleteOrder
import Mathlib.Tactic.Linarith
import Mathlib.Tactic.LinearCombination

/-! Instants are nanoseconds from the start of 1970, in the proleptic Gregorian
calendar without leap seconds. -/

namespace AqEngine.Utils

section

variable (t : Int)

def nanosecond : Int := t % 1000000000

def second : Int := t / 1000000000 % 60

def minute : Int := t / 60000000000 % 60

def hour : Int := t / 3600000000000 % 24

def seconds (n : Int) : Int := n * 1000000000

def minutes (n : Int) : Int := n * 60000000000

def hours (n : Int) : Int := n * 3600000000000

def days (n : Int) : Int := n * 86400000000000

/-- Days from the first of March of year 0. -/
def dayNumber : Int := t / 86400000000000 + 719468

/-- The day on which a month starts; months are counted from March of year 0,
so that the leap day is the last day of a year. -/
def monthStart (m : Int) : Int :=
  365 * (m / 12) + m / 48 - m / 1200 + m / 4800 + (153 * (m % 12) + 2) / 5

/-- The month of a day: the one its share of a 400 year cycle gives, or a neighbour. -/
def monthOf (d : Int) : Int :=
  let m := d * 4800 / 146097
  if d < monthStart m then m - 1 else if monthStart (m + 1) ≤ d then m + 1 else m

def month : Int := (monthOf (dayNumber t) + 2) % 12 + 1

def day : Int := dayNumber t - monthStart (monthOf (dayNumber t)) + 1

/-- The same time of the day that many months later, on the last day of a
month too short for it. -/
def addMonths (n : Int) : Int :=
  let m := monthOf (dayNumber t) + n
  days (monthStart m + min (day t) (monthStart (m + 1) - monthStart m) - 1 - 719468) +
    t % 86400000000000

end

inductive TimeFrameUnit
  | second | minute | hour | day | month
  deriving DecidableEq

def validAmount (amount : Int) : TimeFrameUnit → Bool
  | .second | .minute => decide (0 < amount ∧ amount ≤ 59)
  | .hour => decide (0 < amount ∧ amount ≤ 23)
  | .day | .month => decide (amount = 1)

/-- A timeframe that `validate_time_frame` accepts. -/
structure TimeFrame where
  amount : Int
  unit : TimeFrameUnit
  valid : validAmount amount unit

namespace TimeFrame

variable (self : TimeFrame) (time : Int)

def isIntervalValid : Bool :=
  match self.unit with
  | .second => Utils.second time % self.amount = 0
  | .minute => Utils.minute time % self.amount = 0 ∧ Utils.second time = 0
  | .hour => Utils.hour time % self.amount = 0 ∧ Utils.minute time = 0 ∧ Utils.second time = 0
  | .day => Utils.day time % self.amount = 0 ∧ Utils.hour time = 0 ∧ Utils.minute time = 0 ∧
      Utils.second time = 0
  | .month => Utils.month time % self.amount = 0 ∧ Utils.day time = 1 ∧ Utils.hour time = 0 ∧
      Utils.minute time = 0 ∧ Utils.second time = 0

def getCurrentTimeIncrement : Int :=
  match self.unit with
  | .second => time - (seconds (Utils.second time % self.amount) + nanosecond time)
  | .minute => time - (minutes (Utils.minute time % self.amount) + seconds (Utils.second time) +
      nanosecond time)
  | .hour => time - (hours (Utils.hour time % self.amount) + minutes (Utils.minute time) +
      seconds (Utils.second time) + nanosecond time)
  | .day => time - (days (Utils.day time % self.amount) + hours (Utils.hour time) +
      minutes (Utils.minute time) + seconds (Utils.second time) + nanosecond time)
  | .month =>
    let time := addMonths time (-(Utils.month time % self.amount))
    time - (days (Utils.day time - 1) + hours (Utils.hour time) + minutes (Utils.minute time) +
      seconds (Utils.second time) + nanosecond time)

def getNextTimeIncrement : Int :=
  match self.unit with
  | .second => time + seconds (self.amount - Utils.second time % self.amount) - nanosecond time
  | .minute => time + minutes (self.amount - Utils.minute time % self.amount) -
      seconds (Utils.second time) - nanosecond time
  | .hour => time + hours (self.amount - Utils.hour time % self.amount) -
      minutes (Utils.minute time) - seconds (Utils.second time) - nanosecond time
  | .day => time + days (self.amount - Utils.day time % self.amount) - hours (Utils.hour time) -
      minutes (Utils.minute time) - seconds (Utils.second time) - nanosecond time
  | .month =>
    let time := addMonths time (self.amount - Utils.month time % self.amount)
    time - days (Utils.day time - 1) - hours (Utils.hour time) - minutes (Utils.minute time) -
      seconds (Utils.second time) - nanosecond time

def Aligned : Prop := self.isIntervalValid time ∧ nanosecond time = 0

/-- The next multiple of the amount is not past the end of the larger unit. -/
def fits : Bool :=
  match self.unit with
  | .second => Utils.second time - Utils.second time % self.amount + self.amount ≤ 60
  | .minute => Utils.minute time - Utils.minute time % self.amount + self.amount ≤ 60
  | .hour => Utils.hour time - Utils.hour time % self.amount + self.amount ≤ 24
  | .day | .month => true

end TimeFrame

open TimeFrame

section

variable {u r a t x m : Int}

theorem le_floor_multiple (ha : 0 < a) (hx : x % a = 0) (h : x ≤ m) : x ≤ m - m % a := by
  have hxa := Int.mul_ediv_add_emod x a
  have hma := Int.mul_ediv_add_emod m a
  have hk := Int.mul_le_mul_of_nonneg_left (Int.ediv_le_ediv ha h) ha.le
  omega

theorem next_multiple_le (ha : 0 < a) (hx : x % a = 0) (h : m < x) : m - m % a + a ≤ x := by
  have hma := Int.mul_ediv_add_emod m a
  have hxa : x / a * a = x := Int.ediv_mul_cancel (Int.dvd_of_emod_eq_zero hx)
  have hk : m / a < x / a := Int.ediv_lt_of_lt_mul ha (by rwa [hxa])
  have hmul := Int.mul_le_mul_of_nonneg_left (Int.add_one_le_of_lt hk) ha.le
  linarith

/-- The place `k` in a period of `r` units. -/
theorem emod_place (p : Int) {k : Int} (h0 : 0 ≤ k) (hk : k < r) : (r * p + k) % r = k := by
  rw [Int.mul_add_emod_self_left]
  exact Int.emod_eq_of_lt h0 hk

theorem emod_floor : (m - m % a) % a = 0 := by
  rw [Int.sub_emod, Int.emod_emod_of_dvd _ dvd_rfl, sub_self, Int.zero_emod]

/-- In periods of `r` units, the last unit up to `n` at a multiple of `a`. -/
theorem isGreatest_unit (hr : 0 < r) (ha : 0 < a) (n : Int) :
    IsGreatest {q | q % r % a = 0 ∧ q ≤ n} (n - n % r % a) := by
  have hn := Int.mul_ediv_add_emod n r
  have h0 := Int.emod_nonneg (n % r) ha.ne'
  have hfloor := le_floor_multiple ha (Int.zero_emod a) (Int.emod_nonneg n hr.ne')
  refine ⟨⟨?_, by linarith⟩, ?_⟩
  · have hlt := Int.emod_lt_of_pos n hr
    rw [show n - n % r % a = r * (n / r) + (n % r - n % r % a) by linarith,
      emod_place _ hfloor (by linarith), emod_floor]
  · rintro q ⟨hqa, hqn⟩
    have hq := Int.mul_ediv_add_emod q r
    obtain hlt | heq := (Int.ediv_le_ediv hr hqn).lt_or_eq
    · have hmul := Int.mul_le_mul_of_nonneg_left (Int.add_one_le_of_lt hlt) hr.le
      have hqr := Int.emod_lt_of_pos q hr
      linarith
    · rw [heq] at hq
      have hle := le_floor_multiple ha hqa (m := n % r) (by linarith)
      linarith

/-- The next one is `a` units later, unless the period ends before that. -/
theorem isLeast_unit_iff (hr : 0 < r) (ha : 0 < a) (n : Int) :
    IsLeast {q | q % r % a = 0 ∧ n < q} (n - n % r % a + a) ↔ n % r - n % r % a + a ≤ r := by
  have hn := Int.mul_ediv_add_emod n r
  have hlt := Int.emod_lt_of_pos (n % r) ha
  constructor
  · rintro ⟨-, hleast⟩
    have hend := hleast (a := r * (n / r + 1)) ⟨by simp, by linarith [Int.emod_lt_of_pos n hr]⟩
    linarith
  · intro hle
    have hplace : n - n % r % a + a = r * (n / r) + (n % r - n % r % a + a) := by linarith
    refine ⟨⟨?_, by linarith⟩, ?_⟩
    · have h0 := le_floor_multiple ha (Int.zero_emod a) (Int.emod_nonneg n hr.ne')
      obtain hlt | heq := hle.lt_or_eq
      · rw [hplace, emod_place _ (by linarith) hlt, Int.add_emod_right, emod_floor]
      · rw [hplace, heq]
        simp
    · rintro q ⟨hqa, hqn⟩
      have hq := Int.mul_ediv_add_emod q r
      have h0 := Int.emod_nonneg q hr.ne'
      obtain hlt | heq := (Int.ediv_le_ediv hr hqn.le).lt_or_eq
      · have hmul := Int.mul_le_mul_of_nonneg_left (Int.add_one_le_of_lt hlt) hr.le
        linarith
      · rw [← heq] at hq
        have hge := next_multiple_le ha hqa (m := n % r) (by linarith)
        linarith

/-- Units of length `u` counted from 0 to `r - 1`, every `a`-th of them aligned. -/
theorem increments_of_period {P : Int → Prop} {current next : Int} (hu : 0 < u) (hr : 0 < r)
    (ha : 0 < a) (hP : ∀ t, P t ↔ t / u % r % a = 0 ∧ t % u = 0)
    (hcur : current = t - (t / u % r % a * u + t % u))
    (hnext : next = t + (a - t / u % r % a) * u - t % u) :
    IsGreatest {x | P x ∧ x ≤ t} current ∧
      (IsLeast {x | P x ∧ t < x} next ↔ t / u % r - t / u % r % a + a ≤ r) := by
  have ht := Int.mul_ediv_add_emod t u
  have hcur' : current = u * (t / u - t / u % r % a) := by linear_combination hcur - ht
  have hnext' : next = u * (t / u - t / u % r % a + a) := by linear_combination hnext - ht
  have hle : ∀ q, u * q ≤ t ↔ q ≤ t / u := by
    intro q
    rw [Int.le_ediv_iff_mul_le hu, mul_comm]
  have himage : ∀ B C : Int → Prop, (∀ q, B (u * q) ↔ C q) →
      {x | P x ∧ B x} = (u * ·) '' {q | q % r % a = 0 ∧ C q} := by
    intro B C hBC
    ext x
    constructor
    · rintro ⟨hx, hB⟩
      obtain ⟨hq, h0⟩ := (hP x).1 hx
      have hux : u * (x / u) = x := Int.mul_ediv_cancel' (Int.dvd_of_emod_eq_zero h0)
      exact ⟨x / u, ⟨hq, (hBC _).1 (by rwa [hux])⟩, hux⟩
    · rintro ⟨q, ⟨hq, hC⟩, rfl⟩
      refine ⟨(hP _).2 ?_, (hBC q).2 hC⟩
      rw [Int.mul_ediv_cancel_left _ hu.ne']
      exact ⟨hq, Int.mul_emod_right u q⟩
  have hmono : StrictMono (u * ·) := fun j k hjk => Int.mul_lt_mul_of_pos_left hjk hu
  rw [hcur', hnext', himage (· ≤ t) (· ≤ t / u) hle,
    himage (t < ·) (t / u < ·) fun q => by rw [← not_le, hle, not_le]]
  exact ⟨hmono.map_isGreatest.2 (isGreatest_unit hr ha _),
    hmono.map_isLeast.trans (isLeast_unit_iff hr ha _)⟩
end

theorem monthStart_lt_succ (m : Int) : monthStart m < monthStart (m + 1) := by
  unfold monthStart
  omega

theorem monthStart_strictMono : StrictMono monthStart :=
  strictMono_int_of_lt_succ monthStart_lt_succ

/-- A month starts within six days of its share of the 400 year cycle. -/
theorem monthStart_near (m : Int) : 146097 * m - 28000 ≤ 4800 * monthStart m ∧
    4800 * monthStart m ≤ 146097 * m + 28000 := by
  unfold monthStart
  omega

theorem monthOf_spec (d : Int) : monthStart (monthOf d) ≤ d ∧ d < monthStart (monthOf d + 1) := by
  have hprev := monthStart_near (d * 4800 / 146097 - 1)
  have hnext := monthStart_near (d * 4800 / 146097 + 1 + 1)
  dsimp only [monthOf]
  split
  · rw [sub_add_cancel]
    omega
  split <;> omega

theorem monthOf_eq {d m : Int} (hle : monthStart m ≤ d) (hlt : d < monthStart (m + 1)) :
    monthOf d = m := by
  obtain ⟨hle', hlt'⟩ := monthOf_spec d
  have h₁ := monthStart_strictMono.lt_iff_lt.1 (hle.trans_lt hlt')
  have h₂ := monthStart_strictMono.lt_iff_lt.1 (hle'.trans_lt hlt)
  omega

def firstOf (m : Int) : Int := days (monthStart m - 719468)

theorem firstOf_strictMono : StrictMono firstOf := by
  intro j k hjk
  have h := monthStart_strictMono hjk
  unfold firstOf days
  omega

theorem time_of_day (t : Int) : hours (hour t) + minutes (minute t) + seconds (second t) +
    nanosecond t = t % 86400000000000 := by
  unfold hours hour minutes minute seconds second nanosecond
  omega

theorem midnight_iff (t : Int) : hour t = 0 ∧ minute t = 0 ∧ second t = 0 ∧ nanosecond t = 0 ↔
    t % 86400000000000 = 0 := by
  unfold hour minute second nanosecond
  omega

/-- Going back to the first of the month from the instant `n` months later. -/
theorem start_addMonths (t n : Int) :
    addMonths t n - days (day (addMonths t n) - 1) - addMonths t n % 86400000000000 =
      firstOf (monthOf (dayNumber t) + n) := by
  obtain ⟨hle, hlt⟩ := monthOf_spec (dayNumber t)
  have hlen := monthStart_lt_succ (monthOf (dayNumber t) + n)
  have hd : 1 ≤ day t := by
    unfold day
    omega
  generalize hm : monthOf (dayNumber t) + n = m at hlen ⊢
  have hnum : dayNumber (addMonths t n) =
      monthStart m + min (day t) (monthStart (m + 1) - monthStart m) - 1 := by
    dsimp only [addMonths]
    rw [hm, dayNumber, days]
    omega
  have hmon : monthOf (dayNumber (addMonths t n)) = m := by
    rw [hnum]
    exact monthOf_eq (by omega) (by omega)
  have hday : days (dayNumber (addMonths t n) - 719468) + addMonths t n % 86400000000000 =
      addMonths t n := by
    unfold dayNumber days
    omega
  rw [day, hmon, firstOf]
  unfold days at hday ⊢
  omega

variable {tf : TimeFrame} (t : Int)

/-- The current increment is right, and the next one is so just when `fits`. -/
def Brackets (tf : TimeFrame) (t : Int) (fits : Prop) : Prop :=
  IsGreatest {a | tf.Aligned a ∧ a ≤ t} (tf.getCurrentTimeIncrement t) ∧
    (IsLeast {a | tf.Aligned a ∧ t < a} (tf.getNextTimeIncrement t) ↔ fits)

theorem dayNumber_firstOf (m : Int) : dayNumber (firstOf m) = monthStart m := by
  unfold dayNumber firstOf days
  omega

theorem firstOf_monthOf_le (t : Int) : firstOf (monthOf (dayNumber t)) ≤ t := by
  have hle := (monthOf_spec (dayNumber t)).1
  unfold firstOf days
  unfold dayNumber at hle ⊢
  omega

theorem lt_firstOf_monthOf_succ (t : Int) : t < firstOf (monthOf (dayNumber t) + 1) := by
  have hlt := (monthOf_spec (dayNumber t)).2
  unfold firstOf days
  unfold dayNumber at hlt ⊢
  omega

theorem getCurrentTimeIncrement_month (hu : tf.unit = .month) (ha : tf.amount = 1) :
    tf.getCurrentTimeIncrement t = firstOf (monthOf (dayNumber t)) := by
  have h := start_addMonths t 0
  rw [add_zero, ← time_of_day] at h
  rw [← h]
  simp only [getCurrentTimeIncrement, hu, ha, Int.emod_one, neg_zero]
  omega

theorem getNextTimeIncrement_month (hu : tf.unit = .month) (ha : tf.amount = 1) :
    tf.getNextTimeIncrement t = firstOf (monthOf (dayNumber t) + 1) := by
  have h := start_addMonths t 1
  rw [← time_of_day] at h
  rw [← h]
  simp only [getNextTimeIncrement, hu, ha, Int.emod_one, sub_zero]
  omega

theorem aligned_month_iff {a : Int} (hu : tf.unit = .month) (ha : tf.amount = 1) :
    tf.Aligned a ↔ ∃ m, a = firstOf m := by
  have hday : tf.Aligned a ↔ day a = 1 ∧ a % 86400000000000 = 0 := by
    rw [← midnight_iff]
    simp [Aligned, isIntervalValid, hu, ha, and_assoc]
  rw [hday]
  constructor
  · rintro ⟨hd, h0⟩
    refine ⟨monthOf (dayNumber a), ?_⟩
    unfold day at hd
    unfold firstOf days
    unfold dayNumber at hd ⊢
    omega
  · rintro ⟨m, rfl⟩
    refine ⟨?_, ?_⟩
    · rw [day, dayNumber_firstOf, monthOf_eq le_rfl (monthStart_lt_succ m)]
      omega
    · unfold firstOf days
      omega

theorem brackets_month (hu : tf.unit = .month) (ha : tf.amount = 1) : Brackets tf t True := by
  have hal : ∀ a, tf.Aligned a ↔ ∃ m, a = firstOf m := fun _ => aligned_month_iff hu ha
  rw [Brackets, getCurrentTimeIncrement_month t hu ha, getNextTimeIncrement_month t hu ha, iff_true]
  refine ⟨⟨⟨(hal _).2 ⟨_, rfl⟩, firstOf_monthOf_le t⟩, ?_⟩,
    ⟨(hal _).2 ⟨_, rfl⟩, lt_firstOf_monthOf_succ t⟩, ?_⟩
  · rintro a ⟨ha, hat⟩
    obtain ⟨j, rfl⟩ := (hal a).1 ha
    have hj := firstOf_strictMono.lt_iff_lt.1 (hat.trans_lt (lt_firstOf_monthOf_succ t))
    exact firstOf_strictMono.monotone (by omega)
  · rintro a ⟨ha, hat⟩
    obtain ⟨j, rfl⟩ := (hal a).1 ha
    have hj := firstOf_strictMono.lt_iff_lt.1 ((firstOf_monthOf_le t).trans_lt hat)
    exact firstOf_strictMono.monotone (by omega)

section

variable (ha : 0 < tf.amount)
include ha

theorem brackets_second (hu : tf.unit = .second) :
    Brackets tf t (second t - second t % tf.amount + tf.amount ≤ 60) := by
  refine increments_of_period (u := 1000000000) (by omega) (by omega) ha (fun a => ?_) ?_ ?_
  · simp only [Aligned, isIntervalValid, hu, decide_eq_true_eq]
    rfl
  · simp only [getCurrentTimeIncrement, hu, seconds, second, nanosecond]
  · simp only [getNextTimeIncrement, hu, seconds, second, nanosecond]

theorem brackets_minute (hu : tf.unit = .minute) :
    Brackets tf t (minute t - minute t % tf.amount + tf.amount ≤ 60) := by
  refine increments_of_period (u := 60000000000) (by omega) (by omega) ha (fun a => ?_) ?_ ?_
  · simp only [Aligned, isIntervalValid, hu, decide_eq_true_eq]
    unfold minute second nanosecond
    omega
  · simp only [getCurrentTimeIncrement, hu, minutes, minute, seconds, second, nanosecond]
    omega
  · simp only [getNextTimeIncrement, hu, minutes, minute, seconds, second, nanosecond]
    omega

theorem brackets_hour (hu : tf.unit = .hour) :
    Brackets tf t (hour t - hour t % tf.amount + tf.amount ≤ 24) := by
  refine increments_of_period (u := 3600000000000) (by omega) (by omega) ha (fun a => ?_) ?_ ?_
  · simp only [Aligned, isIntervalValid, hu, decide_eq_true_eq]
    unfold hour minute second nanosecond
    omega
  · simp only [getCurrentTimeIncrement, hu, hours, hour, minutes, minute, seconds, second,
      nanosecond]
    omega
  · simp only [getNextTimeIncrement, hu, hours, hour, minutes, minute, seconds, second, nanosecond]
    omega

end

theorem brackets_day (hu : tf.unit = .day) (ha : tf.amount = 1) : Brackets tf t True := by
  have htime := time_of_day t
  have hP : ∀ a, tf.Aligned a ↔ a / 86400000000000 % 1 % 1 = 0 ∧ a % 86400000000000 = 0 := by
    intro a
    rw [← midnight_iff]
    simp [Aligned, isIntervalValid, hu, ha, and_assoc]
  have hcur : tf.getCurrentTimeIncrement t =
      t - (t / 86400000000000 % 1 % 1 * 86400000000000 + t % 86400000000000) := by
    simp only [getCurrentTimeIncrement, hu, ha, Int.emod_one, days]
    omega
  have hnext : tf.getNextTimeIncrement t =
      t + (1 - t / 86400000000000 % 1 % 1) * 86400000000000 - t % 86400000000000 := by
    simp only [getNextTimeIncrement, hu, ha, Int.emod_one, days]
    omega
  have h := increments_of_period (by omega) one_pos one_pos hP hcur hnext
  simpa [Brackets] using h

theorem increments_bracket (tf : TimeFrame) (t : Int) :
    IsGreatest {a | tf.Aligned a ∧ a ≤ t} (tf.getCurrentTimeIncrement t) ∧
      (IsLeast {a | tf.Aligned a ∧ t < a} (tf.getNextTimeIncrement t) ↔ tf.fits t) := by
  change Brackets tf t (tf.fits t)
  have hv := tf.valid
  cases hu : tf.unit <;> simp only [TimeFrame.fits, validAmount, hu, decide_eq_true_eq] at hv ⊢
  · exact brackets_second t hv.1 hu
  · exact brackets_minute t hv.1 hu
  · exact brackets_hour t hv.1 hu
  · exact brackets_day t hu hv
  · exact brackets_month t hu hv

/-- Seven seconds from 56 seconds on is a time that is not aligned. -/
theorem seven_seconds_not_aligned : ∃ (tf : TimeFrame) (t : Int),
    ¬ IsLeast {a | tf.Aligned a ∧ t < a} (tf.getNextTimeIncrement t) :=
  ⟨⟨7, .second, rfl⟩, 56000000000, fun h => absurd h.1.1.1 (by decide)⟩

end AqEngine.Utils
