import Doors.Calendar

/-! The real-time clock: `cmos.c` over the CMOS registers as they stand during a call. -/

namespace Doors.Cmos

open Calendar

abbrev currentYear : UInt16 := 2024

/-- The CMOS registers by their number. -/
abbrev Registers := UInt8 → UInt8

/-- What `read_rtc` stores. -/
structure RtcTime where
  year : UInt16
  month : UInt16
  day : UInt16
  hour : UInt16
  minute : UInt16
  second : UInt16
  deriving DecidableEq

def getUpdateInProgressFlag (cmos : Registers) : UInt8 := cmos 0x0A &&& 0x80

def getRTCRegister (cmos : Registers) (reg : UInt8) : UInt16 := (cmos reg).toUInt16

/-- A register in binary-coded decimal. -/
def fromBcd (value : UInt16) : UInt16 := (value &&& 0x0F) + (value / 16) * 10

/-- As `fromBcd`, with the PM bit kept. -/
def hourFromBcd (hour : UInt16) : UInt16 :=
  ((hour &&& 0x0F) + (((hour &&& 0x70) / 16) * 10)) ||| (hour &&& 0x80)

def to24Hour (hour : UInt16) : UInt16 := ((hour &&& 0x7F) + 12) % 24

def fullYear (year : UInt16) : UInt16 :=
  let year := year + (currentYear / 100) * 100
  if year < currentYear then year + 100 else year

/-- `none` stands for a flag that never clears. -/
def readRtc (cmos : Registers) : Option RtcTime :=
  if getUpdateInProgressFlag cmos ≠ 0 then none
  else
    let second := getRTCRegister cmos 0x00
    let minute := getRTCRegister cmos 0x02
    let hour := getRTCRegister cmos 0x04
    let day := getRTCRegister cmos 0x07
    let month := getRTCRegister cmos 0x08
    let year := getRTCRegister cmos 0x09
    let registerB := cmos 0x0B
    let time : RtcTime :=
      if registerB &&& 0x04 = 0 then
        ⟨fromBcd year, fromBcd month, fromBcd day, hourFromBcd hour, fromBcd minute,
          fromBcd second⟩
      else ⟨year, month, day, hour, minute, second⟩
    let hour :=
      if registerB &&& 0x02 = 0 ∧ time.hour &&& 0x80 ≠ 0 then to24Hour time.hour else time.hour
    some { time with year := fullYear time.year, hour }

/-- The table `days` of `get_timestamp`. -/
def days : List UInt32 :=
  [0,
    31,
    31 + 28,
    31 + 28 + 31,
    31 + 28 + 31 + 30,
    31 + 28 + 31 + 30 + 31,
    31 + 28 + 31 + 30 + 31 + 30,
    31 + 28 + 31 + 30 + 31 + 30 + 31,
    31 + 28 + 31 + 30 + 31 + 30 + 31 + 30,
    31 + 28 + 31 + 30 + 31 + 30 + 31 + 30 + 31,
    31 + 28 + 31 + 30 + 31 + 30 + 31 + 30 + 31 + 30,
    31 + 28 + 31 + 30 + 31 + 30 + 31 + 30 + 31 + 30 + 31]

/-- The sum made of what `read_rtc` stored; `none` is an access outside `days`. -/
def RtcTime.timestamp (t : RtcTime) : Option UInt32 :=
  let time := (t.year.toUInt32 - 1970) * 365
  let leapyears := t.year.toUInt32 - 1969
  let leapyears := if t.month > 2 then leapyears + 1 else leapyears
  let time := time + leapyears / 4
  days[(t.month - 1).toNat]?.map fun before =>
    let time := time + before
    let time := time + (t.day.toUInt32 - 1)
    let time := time * 24
    let time := time + t.hour.toUInt32
    let time := time * 60
    let time := time + t.minute.toUInt32
    let time := time * 60
    time + t.second.toUInt32

def getTimestamp (cmos : Registers) : Option UInt32 := (readRtc cmos).bind RtcTime.timestamp

/-- The clock counts the hours of a day up to 24, not twice up to 12. -/
def Is24Hour (cmos : Registers) : Prop := cmos 0x0B &&& 0x02 ≠ 0

instance (cmos : Registers) : Decidable (Is24Hour cmos) := inferInstanceAs (Decidable (_ ≠ _))

/-- A number below 100 in the format that status register B selects. -/
def encode (registerB : UInt8) (n : Nat) : UInt8 :=
  if registerB &&& 0x04 = 0 then UInt8.ofNat (n / 10 * 16 + n % 10) else UInt8.ofNat n

/-- An hour; with 12 hours, midnight and noon are 12, and the top bit is set from noon on. -/
def encodeHour (registerB : UInt8) (hour : Nat) : UInt8 :=
  if registerB &&& 0x02 = 0 then
    encode registerB (if hour % 12 = 0 then 12 else hour % 12) ||| if 12 ≤ hour then 0x80 else 0
  else encode registerB hour

/-- The registers hold that date and time, and no update is in progress. -/
structure Encodes (cmos : Registers) (t : DateTime) : Prop where
  idle : cmos 0x0A &&& 0x80 = 0
  second : cmos 0x00 = encode (cmos 0x0B) t.second
  minute : cmos 0x02 = encode (cmos 0x0B) t.minute
  hour : cmos 0x04 = encodeHour (cmos 0x0B) t.hour
  day : cmos 0x07 = encode (cmos 0x0B) t.day
  month : cmos 0x08 = encode (cmos 0x0B) t.month
  year : cmos 0x09 = encode (cmos 0x0B) (t.year % 100)

/-- The date and time as `read_rtc` should store it. -/
def rtcTime (t : DateTime) : RtcTime where
  year := UInt16.ofNat t.year
  month := UInt16.ofNat t.month
  day := UInt16.ofNat t.day
  hour := UInt16.ofNat t.hour
  minute := UInt16.ofNat t.minute
  second := UInt16.ofNat t.second

/-- The hour that is stored: on a clock of 12 hours midnight and noon are taken for each other. -/
def readHour (registerB : UInt8) (hour : Nat) : Nat :=
  if registerB &&& 0x02 = 0 ∧ hour % 12 = 0 then (hour + 12) % 24 else hour

/-- The seconds that `get_timestamp` counts, as one number. -/
def countedSeconds (t : DateTime) : Nat :=
  ((((t.year - 1970) * 365 + (t.year - 1969 + if 2 < t.month then 1 else 0) / 4 +
    (days.getD (t.month - 1) 0).toNat + (t.day - 1)) * 24 + t.hour) * 60 + t.minute) * 60 + t.second

section Decoding

theorem fromBcd_encode : ∀ n < 100,
    fromBcd (UInt8.ofNat (n / 10 * 16 + n % 10)).toUInt16 = UInt16.ofNat n := by
  decide

theorem toUInt16_ofNat : ∀ n < 100, (UInt8.ofNat n).toUInt16 = UInt16.ofNat n := by
  decide

theorem fullYear_eq : ∀ n < 100, fullYear (UInt16.ofNat ((2024 + n) % 100)) =
    UInt16.ofNat (2024 + n) := by
  decide

theorem decode_encode {cmos : Registers} {reg : UInt8} {n : Nat} (hn : n < 100)
    (h : cmos reg = encode (cmos 0x0B) n) :
    (if cmos 0x0B &&& 0x04 = 0 then fromBcd (getRTCRegister cmos reg)
      else getRTCRegister cmos reg) = UInt16.ofNat n := by
  rw [getRTCRegister, h, encode]
  by_cases hb : cmos 0x0B &&& 0x04 = 0
  · rw [if_pos hb, if_pos hb, fromBcd_encode n hn]
  · rw [if_neg hb, if_neg hb, toUInt16_ofNat n hn]

theorem decode_hour {cmos : Registers} {n : Nat} (hn : n < 24)
    (h : cmos 0x04 = encodeHour (cmos 0x0B) n) (hour : UInt16)
    (hhour : hour = if cmos 0x0B &&& 0x04 = 0 then hourFromBcd (getRTCRegister cmos 0x04)
      else getRTCRegister cmos 0x04) :
    (if cmos 0x0B &&& 0x02 = 0 ∧ hour &&& 0x80 ≠ 0 then to24Hour hour else hour) =
      UInt16.ofNat (readHour (cmos 0x0B) n) := by
  rw [hhour, getRTCRegister, h, encodeHour, encode, encode, readHour]
  by_cases hb : cmos 0x0B &&& 0x04 = 0 <;> by_cases h2 : cmos 0x0B &&& 0x02 = 0
  all_goals
    simp only [hb, h2, if_true, if_false, true_and, false_and]
    clear h
    revert n
    decide

end Decoding

variable {cmos : Registers} {t : DateTime}

theorem readRtc_eq (hyear : 2024 ≤ t.year ∧ t.year ≤ 2123) (h : Encodes cmos t) :
    readRtc cmos = some { rtcTime t with hour := UInt16.ofNat (readHour (cmos 0x0B) t.hour) } := by
  have hidle : ¬ getUpdateInProgressFlag cmos ≠ 0 := not_not.mpr h.idle
  have hday := monthDays_le t.year t.month
  have hyear' := decode_encode (by omega : t.year % 100 < 100) h.year
  have hmonth := decode_encode (by have := t.month_range; omega : t.month < 100) h.month
  have hday := decode_encode (by have := t.day_range; omega : t.day < 100) h.day
  have hminute := decode_encode (by have := t.minute_lt; omega : t.minute < 100) h.minute
  have hsecond := decode_encode (by have := t.second_lt; omega : t.second < 100) h.second
  have hhour := decode_hour t.hour_lt h.hour _ rfl
  have hfull : fullYear (UInt16.ofNat (t.year % 100)) = UInt16.ofNat t.year := by
    obtain ⟨n, hn⟩ := Nat.exists_eq_add_of_le hyear.1
    rw [hn]
    exact fullYear_eq n (by omega)
  rw [readRtc, if_neg hidle]
  by_cases hb : cmos 0x0B &&& 0x04 = 0
  · rw [if_pos hb] at hyear' hmonth hday hminute hsecond
    simp only [if_pos hb] at hhour ⊢
    rw [hhour, hyear', hmonth, hday, hminute, hsecond, hfull]
    rfl
  · rw [if_neg hb] at hyear' hmonth hday hminute hsecond
    simp only [if_neg hb] at hhour ⊢
    rw [hhour, hyear', hmonth, hday, hminute, hsecond, hfull]
    rfl

theorem toUInt32_ofNat {n : Nat} (hn : n < 65536) :
    (UInt16.ofNat n).toUInt32 = UInt32.ofNat n := by
  apply UInt32.toNat_inj.mp
  rw [UInt16.toNat_toUInt32, UInt16.toNat_ofNat_of_lt' hn, UInt32.toNat_ofNat_of_lt']
  change n < 4294967296
  omega

theorem ofNat_div_four {n : Nat} (hn : n < 65536) :
    UInt32.ofNat (n / 4) = UInt32.ofNat n / 4 := by
  have hsize : ∀ k < 65536, (UInt32.ofNat k).toNat = k := by
    intro k hk
    rw [UInt32.toNat_ofNat_of_lt']
    change k < 4294967296
    omega
  apply UInt32.toNat_inj.mp
  rw [UInt32.toNat_div, hsize _ hn, hsize _ (by omega)]
  rfl

theorem days_month {month : Nat} (hm : 1 ≤ month ∧ month ≤ 12) :
    days[(UInt16.ofNat month - 1).toNat]? = some (days.getD (month - 1) 0) := by
  obtain ⟨h1, h2⟩ := hm
  interval_cases month <;> rfl

theorem month_gt_two {month : Nat} (hm : 1 ≤ month ∧ month ≤ 12) :
    UInt16.ofNat month > 2 ↔ 2 < month := by
  obtain ⟨h1, h2⟩ := hm
  interval_cases month <;> decide

theorem timestamp_eq (hyear : 2024 ≤ t.year ∧ t.year ≤ 2123) :
    (rtcTime t).timestamp = some (UInt32.ofNat (countedSeconds t)) := by
  have hdays := monthDays_le t.year t.month
  have hy : (rtcTime t).year.toUInt32 = UInt32.ofNat t.year := toUInt32_ofNat (by omega)
  have hd : (rtcTime t).day.toUInt32 = UInt32.ofNat t.day :=
    toUInt32_ofNat (by have := t.day_range; omega)
  have hh : (rtcTime t).hour.toUInt32 = UInt32.ofNat t.hour :=
    toUInt32_ofNat (by have := t.hour_lt; omega)
  have hm : (rtcTime t).minute.toUInt32 = UInt32.ofNat t.minute :=
    toUInt32_ofNat (by have := t.minute_lt; omega)
  have hs : (rtcTime t).second.toUInt32 = UInt32.ofNat t.second :=
    toUInt32_ofNat (by have := t.second_lt; omega)
  have hleap : (if (rtcTime t).month > 2 then UInt32.ofNat t.year - 1969 + 1
        else UInt32.ofNat t.year - 1969) =
      UInt32.ofNat (t.year - 1969 + if 2 < t.month then 1 else 0) := by
    have hgt : (rtcTime t).month > 2 ↔ 2 < t.month := month_gt_two t.month_range
    by_cases hlate : 2 < t.month
    · rw [if_pos (hgt.mpr hlate), if_pos hlate, UInt32.ofNat_add, UInt32.ofNat_sub (by omega)]
      rfl
    · rw [if_neg (mt hgt.mp hlate), if_neg hlate, Nat.add_zero, UInt32.ofNat_sub (by omega)]
      rfl
  have hbefore : days[((rtcTime t).month - 1).toNat]? = some (days.getD (t.month - 1) 0) :=
    days_month t.month_range
  simp only [RtcTime.timestamp, hbefore, Option.map_some, hy, hd, hh, hm, hs, hleap]
  rw [← ofNat_div_four (by split_ifs <;> omega), countedSeconds]
  simp only [UInt32.ofNat_add, UInt32.ofNat_mul, UInt32.ofNat_toNat]
  rw [UInt32.ofNat_sub (by omega : 1970 ≤ t.year), UInt32.ofNat_sub t.day_range.1]
  rfl

/-- The table is a day short before September and before November. -/
theorem days_table {month : Nat} (hm : 1 ≤ month ∧ month ≤ 12) :
    (days.getD (month - 1) 0).toNat + (if month = 9 ∨ month = 11 then 1 else 0) =
      plainMonths.getD (month - 1) 0 := by
  obtain ⟨h1, h2⟩ := hm
  interval_cases month <;> rfl

/-- The formula counts a leap day in 2100. -/
theorem leapDays_eq (hyear : 2024 ≤ t.year ∧ t.year ≤ 2123) :
    (t.year - 1970) * 365 + (t.year - 1969 + if 2 < t.month then 1 else 0) / 4 +
        plainMonths.getD (t.month - 1) 0 =
      daysOfYears (t.year - 1970) + daysOfMonths t.year (t.month - 1) +
        if 2100 < t.year ∨ t.year = 2100 ∧ 2 < t.month then 1 else 0 := by
  have hyears := daysOfYears_eq (by omega : t.year - 1970 ≤ 230)
  have hpast : 130 < t.year - 1970 ↔ 2100 < t.year := by omega
  have hfeb : 2 ≤ t.month - 1 ↔ 2 < t.month := by omega
  rw [daysOfMonths_eq t.year (by have := t.month_range; omega : t.month - 1 < 12)]
  simp only [hpast, hfeb, isLeap_iff] at hyears ⊢
  by_cases hm : 2 < t.month
  · simp only [hm, true_and, and_true, if_true]
    split_ifs at hyears ⊢ <;> omega
  · simp only [hm, false_and, and_false, or_false, if_false]
    split_ifs at hyears ⊢ <;> omega

theorem countedSeconds_eq (hyear : 2024 ≤ t.year ∧ t.year ≤ 2123) :
    countedSeconds t + (if t.month = 9 ∨ t.month = 11 then 86400 else 0) =
      t.unixTime + if 2100 < t.year ∨ t.year = 2100 ∧ 2 < t.month then 86400 else 0 := by
  have htable := days_table t.month_range
  have hdays := @leapDays_eq t hyear
  rw [countedSeconds, DateTime.unixTime, DateTime.dayNumber]
  split_ifs at htable hdays ⊢ <;> omega

/-- `get_timestamp` is right when its two errors are both absent, or cancel. -/
theorem timestamp_iff (hyear : 2024 ≤ t.year ∧ t.year ≤ 2123) :
    (rtcTime t).timestamp = some (UInt32.ofNat t.unixTime) ↔
      ((t.month = 9 ∨ t.month = 11) ↔ 2100 < t.year ∨ t.year = 2100 ∧ 2 < t.month) := by
  have hcount := countedSeconds_eq hyear
  rw [timestamp_eq hyear, Option.some.injEq, ← UInt32.toNat_inj, UInt32.toNat_ofNat',
    UInt32.toNat_ofNat']
  split_ifs at hcount with hm hc hc
  · exact iff_of_true (by omega) (iff_of_true hm hc)
  · exact iff_of_false (by omega) fun h => hc (h.mp hm)
  · exact iff_of_false (by omega) fun h => hm (h.mpr hc)
  · exact iff_of_true (by omega) (iff_of_false hm hc)

theorem readRtc_iff (hyear : 2024 ≤ t.year ∧ t.year ≤ 2123) (h : Encodes cmos t) :
    readRtc cmos = some (rtcTime t) ↔ Is24Hour cmos ∨ t.hour % 12 ≠ 0 := by
  have hlt := t.hour_lt
  rw [readRtc_eq hyear h, Option.some.injEq]
  constructor
  · intro heq
    have hhour : UInt16.ofNat (readHour (cmos 0x0B) t.hour) = UInt16.ofNat t.hour :=
      congrArg RtcTime.hour heq
    by_contra hboth
    obtain ⟨h24, h12⟩ := not_or.mp hboth
    rw [readHour, if_pos ⟨not_not.mp h24, not_not.mp h12⟩, ← UInt16.toNat_inj, UInt16.toNat_ofNat',
      UInt16.toNat_ofNat'] at hhour
    omega
  · intro hright
    have hsame : readHour (cmos 0x0B) t.hour = t.hour := by
      rw [readHour, if_neg]
      rintro ⟨h24, h12⟩
      rcases hright with hr | hr
      · exact hr h24
      · exact hr h12
    rw [hsame]
    rfl

/-- The clock and the timestamp are right exactly when noon and midnight are told apart and
the errors of the day count cancel. -/
theorem clock_iff (hyear : 2024 ≤ t.year ∧ t.year ≤ 2123) (h : Encodes cmos t) :
    readRtc cmos = some (rtcTime t) ∧ getTimestamp cmos = some (UInt32.ofNat t.unixTime) ↔
      (Is24Hour cmos ∨ t.hour % 12 ≠ 0) ∧
        ((t.month = 9 ∨ t.month = 11) ↔ 2100 < t.year ∨ t.year = 2100 ∧ 2 < t.month) := by
  rw [← readRtc_iff hyear h, ← timestamp_iff hyear]
  apply and_congr_right
  intro hread
  rw [getTimestamp, hread, Option.bind_some]

/-- The registers that hold the time `t`, status register B being `registerB`. -/
def registersOf (registerB : UInt8) (t : DateTime) : Registers := fun reg =>
  if reg = 0x00 then encode registerB t.second
  else if reg = 0x02 then encode registerB t.minute
  else if reg = 0x04 then encodeHour registerB t.hour
  else if reg = 0x07 then encode registerB t.day
  else if reg = 0x08 then encode registerB t.month
  else if reg = 0x09 then encode registerB (t.year % 100)
  else if reg = 0x0B then registerB
  else 0

theorem registersOf_encodes (registerB : UInt8) (t : DateTime) :
    Encodes (registersOf registerB t) t where
  idle := by
    rw [show registersOf registerB t 0x0A = 0 from rfl]
    rfl
  second := rfl
  minute := rfl
  hour := rfl
  day := rfl
  month := rfl
  year := rfl

def leapEvening : DateTime where
  year := 2024
  month := 2
  day := 29
  hour := 19
  minute := 30
  second := 5
  month_range := by decide
  day_range := by decide
  hour_lt := by decide
  minute_lt := by decide
  second_lt := by decide

/-- An evening in decimal and 12 hours. -/
theorem clock_iff_evening :
    readRtc (registersOf 0 leapEvening) = some (rtcTime leapEvening) ∧
      getTimestamp (registersOf 0 leapEvening) = some (UInt32.ofNat leapEvening.unixTime) :=
  (clock_iff (by decide) (registersOf_encodes 0 _)).mpr ⟨.inr (by decide), by decide⟩

def septemberNoon : DateTime where
  year := 2024
  month := 9
  day := 1
  hour := 12
  minute := 0
  second := 0
  month_range := by decide
  day_range := by decide
  hour_lt := by decide
  minute_lt := by decide
  second_lt := by decide

/-- Noon on a clock of 12 hours is read as midnight, and the first of September is counted as
the last of August. -/
theorem clock_wrong :
    readRtc (registersOf 0 septemberNoon) = some { rtcTime septemberNoon with hour := 0 } ∧
      getTimestamp (registersOf 6 septemberNoon) =
        some (UInt32.ofNat (septemberNoon.unixTime - 86400)) ∧
      ¬ (readRtc (registersOf 0 septemberNoon) = some (rtcTime septemberNoon) ∧
        getTimestamp (registersOf 0 septemberNoon) =
          some (UInt32.ofNat septemberNoon.unixTime)) := by
  decide

end Doors.Cmos
