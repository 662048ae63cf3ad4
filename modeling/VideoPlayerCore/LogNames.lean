import VideoPlayerCore.CInts
import VideoPlayerCore.Calendar
import VideoPlayerCore.Formats

/-!
# The names of the backups

`flushBuffer` renames log.txt to the local time in milliseconds, `cleanDirectory` reads that
time from the name again.  The format strings are two different ones, and the local time is
broken down and put together by the C library: `Zone` stands for it.

    t is told → timeFileFormatToTimestampMs zone (backupName zone t) = t     (backup_name_times)
-/

namespace VideoPlayerCore

open Formats

/-! ## Local time -/

/-- `struct tm` without the fields that the log leaves alone. -/
structure Tm where
  year : Int
  mon : Int
  mday : Int
  hour : Int
  min : Int
  sec : Int
  deriving DecidableEq

structure Zone where
  localtime : Int → Tm
  mktime : Tm → Int
  /-- the `int` that `sscanf` stores for a number -/
  stored : Int → Int

/-- A local zone with a fixed offset: what the C library promises. -/
structure Zone.FixedOffset (zone : Zone) : Prop where
  inverse : ∀ s, 0 ≤ s → zone.mktime (zone.localtime s) = s
  mon : ∀ s, 0 ≤ (zone.localtime s).mon ∧ (zone.localtime s).mon ≤ 11
  mday : ∀ s, 1 ≤ (zone.localtime s).mday ∧ (zone.localtime s).mday ≤ 31
  hour : ∀ s, 0 ≤ (zone.localtime s).hour ∧ (zone.localtime s).hour ≤ 23
  min : ∀ s, 0 ≤ (zone.localtime s).min ∧ (zone.localtime s).min ≤ 59
  sec : ∀ s, 0 ≤ (zone.localtime s).sec ∧ (zone.localtime s).sec ≤ 60
  stored : ∀ n, IsInt n → zone.stored n = n

/-! ## getTimeFileFormat -/

/-- `"%04d-%02d-%02dT%02d_%02d_%02d.%03d"` -/
def timeFileFormat : List Directive :=
  [.number 4, .char '-', .number 2, .char '-', .number 2, .char 'T', .number 2, .char '_',
    .number 2, .char '_', .number 2, .char '.', .number 3]

def getTimeFileFormat (zone : Zone) (len : Nat) (time1 ms : Int) : List Char :=
  let ptm := zone.localtime time1
  (print timeFileFormat
    [int (ptm.year + 1900), int (ptm.mon + 1), ptm.mday, ptm.hour, ptm.min, ptm.sec, ms]).take
    (len - 1)

/-- The name that a rotation gives log.txt; `_logDir` ends with a `/`. -/
def backupName (zone : Zone) (time : Int) : List Char :=
  getTimeFileFormat zone 128 (time.tdiv 1000) (time.tmod 1000) ++ ".txt".toList

/-! ## timeFileFormatToTimestampMs -/

/-- `"%d-%d-%dT%d_%d_%d.%d.txt"` -/
def timestampFormat : List Directive :=
  [.number 0, .char '-', .number 0, .char '-', .number 0, .char 'T', .number 0, .char '_',
    .number 0, .char '_', .number 0, .char '.', .number 0] ++
    [.char '.', .char 't', .char 'x', .char 't']

def timeFileFormatToTimestampMs (zone : Zone) (filename : List Char) : Int :=
  match (scan timestampFormat filename).map zone.stored with
  | [year, month, day, hour, minute, second, milli] =>
    let seconds := zone.mktime
      { year := int (year - 1900), mon := int (month - 1), mday := day, hour := hour
        min := minute, sec := second }
    if seconds = -1 then -1 else timeT (seconds * 1000 + milli)
  | _ => -1

/-! ## There and back -/

/-- A `time_t` in milliseconds from 1970 on whose year is an `int`. -/
def Zone.Tells (zone : Zone) (t : Int) : Prop :=
  (0 ≤ t ∧ t < 2 ^ 63) ∧ -2 ^ 31 ≤ (zone.localtime (t.tdiv 1000)).year ∧
    (zone.localtime (t.tdiv 1000)).year + 1900 < 2 ^ 31

instance (zone : Zone) (t : Int) : Decidable (zone.Tells t) :=
  inferInstanceAs (Decidable (_ ∧ _))

variable {zone : Zone} {t u : Int}

theorem IsInt.length_padded {n : Int} (h : IsInt n) {width : Nat} (hw : width ≤ 11) :
    (padded width n).length ≤ 11 := by
  unfold IsInt at h
  have hlen := length_padded_le (n := n) width (by decide : 0 < 10) (by omega)
  omega

/-- What was printed of seven `int`s is not cut off, and it is read back. -/
theorem scan_timeFileFormat {year month day hour minute second milli : Int}
    (h : ∀ n ∈ [year, month, day, hour, minute, second, milli], IsInt n) :
    scan timestampFormat ((print timeFileFormat
      [year, month, day, hour, minute, second, milli]).take 127 ++ ".txt".toList) =
        [year, month, day, hour, minute, second, milli] := by
  have hlen : (print timeFileFormat [year, month, day, hour, minute, second, milli]).length ≤
      127 := by
    have h4 := (h year (by simp)).length_padded (by decide : 4 ≤ 11)
    have h2 : ∀ n ∈ [month, day, hour, minute, second], (padded 2 n).length ≤ 11 := fun n hn =>
      (h n (by simp at hn ⊢; tauto)).length_padded (by decide)
    have h3 := (h milli (by simp)).length_padded (by decide : 3 ≤ 11)
    have hmonth := h2 month (by simp)
    have hday := h2 day (by simp)
    have hhour := h2 hour (by simp)
    have hminute := h2 minute (by simp)
    have hsecond := h2 second (by simp)
    simp only [timeFileFormat, print, List.length_append, List.length_cons, List.length_nil]
    omega
  rw [List.take_of_length_le hlen]
  have halike : Alike timeFileFormat
      [.number 0, .char '-', .number 0, .char '-', .number 0, .char 'T', .number 0, .char '_',
        .number 0, .char '_', .number 0, .char '.', .number 0] := by
    unfold timeFileFormat
    repeat constructor
  have hdelimited : Delimited timeFileFormat := by
    unfold timeFileFormat
    simp only [Delimited]
    decide
  exact scan_print halike hdelimited rfl (noDigit_cons (by decide)) _

/-- The name of the backup made at `t` denotes `t`. -/
theorem Zone.FixedOffset.timestamp (h : zone.FixedOffset) (ht : zone.Tells t) :
    timeFileFormatToTimestampMs zone (backupName zone t) = t := by
  obtain ⟨⟨h0, hlt⟩, hyear, hyear'⟩ := ht
  have hs : t.tdiv 1000 = t / 1000 := Int.tdiv_eq_ediv_of_nonneg h0
  have hms : t.tmod 1000 = t % 1000 := Int.tmod_eq_emod_of_nonneg h0
  obtain ⟨s, hsec⟩ : ∃ s, s = t.tdiv 1000 := ⟨_, rfl⟩
  rw [← hsec] at hyear hyear' hs
  have hinverse := h.inverse s (by omega)
  have hmon := h.mon s
  have hmday := h.mday s
  have hhour := h.hour s
  have hmin := h.min s
  have hsecond := h.sec s
  unfold backupName getTimeFileFormat
  rw [← hsec]
  dsimp only
  cases htm : zone.localtime s with
  | mk year mon mday hour min sec =>
    rw [htm] at hinverse hmon hmday hhour hmin hsecond hyear hyear'
    dsimp only at *
    have hy : IsInt (year + 1900) := ⟨by omega, by omega⟩
    have hm : IsInt (mon + 1) := ⟨by omega, by omega⟩
    have hints : ∀ n ∈ [year + 1900, mon + 1, mday, hour, min, sec, t.tmod 1000], IsInt n := by
      intro n hn
      simp only [List.mem_cons, List.not_mem_nil, or_false] at hn
      unfold IsInt
      omega
    rw [hy.int_eq, hm.int_eq]
    unfold timeFileFormatToTimestampMs
    rw [scan_timeFileFormat hints, List.map_congr_left fun n hn => h.stored n (hints n hn)]
    have hback : int (year + 1900 - 1900) = year ∧ int (mon + 1 - 1) = mon := by
      rw [Int.add_sub_cancel, Int.add_sub_cancel]
      exact ⟨IsInt.int_eq ⟨hyear, by omega⟩, IsInt.int_eq ⟨by omega, by omega⟩⟩
    rw [List.map_id']
    dsimp only
    rw [hback.1, hback.2, hinverse, if_neg (by omega)]
    have hsum : s * 1000 + t.tmod 1000 = t := by omega
    rw [hsum]
    exact (timeT_eq_iff h0).mpr hlt

/-- In a zone with a fixed offset the time is read back from the name of a backup, so that
names are different and ordered as the times are. -/
theorem backup_name_times {zone : Zone} (h : zone.FixedOffset) :
    (∀ t, zone.Tells t → timeFileFormatToTimestampMs zone (backupName zone t) = t) ∧
      ∀ t u, zone.Tells t → zone.Tells u →
        (backupName zone t = backupName zone u ↔ t = u) ∧
          (timeFileFormatToTimestampMs zone (backupName zone t) <
            timeFileFormatToTimestampMs zone (backupName zone u) ↔ t < u) := by
  refine ⟨fun t ht => h.timestamp ht, fun t u ht hu => ⟨⟨fun heq => ?_, fun heq => ?_⟩, ?_⟩⟩
  · have htime := h.timestamp ht
    rw [heq, h.timestamp hu] at htime
    exact htime.symm
  · rw [heq]
  · rw [h.timestamp ht, h.timestamp hu]

/-! ## A zone -/

/-- The local time is ahead of UTC by so many seconds. -/
def Zone.ahead (offset : Int) : Zone where
  localtime s :=
    let date := Calendar.dateOf ((s + offset) / 86400)
    let second := (s + offset) % 86400
    { year := date.year - 1900, mon := date.month - 1, mday := date.day
      hour := second / 3600, min := second % 3600 / 60, sec := second % 60 }
  mktime tm :=
    86400 * Calendar.daysOf
      { year := tm.year + 1900 + tm.mon / 12, month := tm.mon % 12 + 1, day := tm.mday } +
      3600 * tm.hour + 60 * tm.min + tm.sec - offset
  stored := int

theorem Zone.ahead_fixedOffset (offset : Int) : (Zone.ahead offset).FixedOffset where
  inverse s _ := by
    obtain ⟨hmonth, hmonth', -, -⟩ := Calendar.dateOf_range ((s + offset) / 86400)
    have hdays := Calendar.daysOf_dateOf ((s + offset) / 86400)
    unfold Zone.ahead
    dsimp only
    cases hdate : Calendar.dateOf ((s + offset) / 86400) with
    | mk year month day =>
      rw [hdate] at hmonth hmonth' hdays
      dsimp only at *
      have hyear : year - 1900 + 1900 + (month - 1) / 12 = year := by omega
      have hmon : (month - 1) % 12 + 1 = month := by omega
      rw [hyear, hmon, hdays]
      omega
  mon s := by
    have hrange := Calendar.dateOf_range ((s + offset) / 86400)
    unfold Zone.ahead
    dsimp only
    omega
  mday s := by
    have hrange := Calendar.dateOf_range ((s + offset) / 86400)
    exact ⟨hrange.2.2.1, hrange.2.2.2⟩
  hour s := by
    unfold Zone.ahead
    dsimp only
    omega
  min s := by
    unfold Zone.ahead
    dsimp only
    omega
  sec s := by
    unfold Zone.ahead
    dsimp only
    omega
  stored n hn := hn.int_eq

/-- 23.59 in Shanghai on the last day of the year 9999, and a millisecond later. -/
theorem backup_name_times_shanghai :
    backupName (Zone.ahead 28800) 253402271999999 = "9999-12-31T23_59_59.999.txt".toList ∧
      backupName (Zone.ahead 28800) 253402272000000 = "10000-01-01T00_00_00.000.txt".toList ∧
      timeFileFormatToTimestampMs (Zone.ahead 28800)
        (backupName (Zone.ahead 28800) 253402272000000) = 253402272000000 ∧
      timeFileFormatToTimestampMs (Zone.ahead 28800)
          (backupName (Zone.ahead 28800) 253402271999999) <
        timeFileFormatToTimestampMs (Zone.ahead 28800)
          (backupName (Zone.ahead 28800) 253402272000000) := by
  have htells : (Zone.ahead 28800).Tells 253402271999999 := by decide +kernel
  have htells' : (Zone.ahead 28800).Tells 253402272000000 := by decide +kernel
  obtain ⟨htimes, horder⟩ := backup_name_times (Zone.ahead_fixedOffset 28800)
  refine ⟨by decide +kernel, by decide +kernel, htimes _ htells', ?_⟩
  exact (horder _ _ htells htells').2.mpr (by decide)

end VideoPlayerCore
