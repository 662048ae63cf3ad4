import Mathlib.Data.List.Forall2
import VideoPlayerCore.FixedWidth
import VideoPlayerCore.LogNames
import VideoPlayerCore.LogRecords

/-!
# The time in front of a record

`_log` reads the clock with the mutex held and begins the record with the local time in ISO
8601; the zone it names is +0800 wherever it runs.  Up to the year 9999 such a text has always
28 bytes, and the texts come in the order of the times.

    0 ≤ t → t < u → (zone.localtime t).fields < (zone.localtime u).fields      (fields_lt)
    instantOf (stamp (Zone.ahead offset) t) = some (t + (offset - 28800) * 1000)
                                                                      (instantOf_stamp)
    in every run the records are in the order of their stamps         (records_in_order)
-/

namespace VideoPlayerCore

open Formats Machine LogState

/-! ## getIso8601Format -/

/-- `"%04d-%02d-%02dT%02d:%02d:%02d.%03d"` -/
def clockFormat : List Directive :=
  [.number 4, .char '-', .number 2, .char '-', .number 2, .char 'T', .number 2, .char ':',
    .number 2, .char ':', .number 2, .char '.', .number 3]

/-- `"%04d-%02d-%02dT%02d:%02d:%02d.%03d+0800"` -/
def iso8601Format : List Directive :=
  clockFormat ++ [.char '+', .char '0', .char '8', .char '0', .char '0']

def getIso8601Format (zone : Zone) (len : Nat) (time1 ms : Int) : List Char :=
  let ptm := zone.localtime time1
  (print iso8601Format
    [int (ptm.year + 1900), int (ptm.mon + 1), ptm.mday, ptm.hour, ptm.min, ptm.sec, ms]).take
    (len - 1)

/-- What `_log` begins a record with. -/
def stamp (zone : Zone) (time : Int) : List Char :=
  getIso8601Format zone 128 (time.tdiv 1000) (time.tmod 1000)

def stampBytes (zone : Zone) (time : Int) : Bytes :=
  (stamp zone time).map fun c => UInt8.ofNat c.toNat

/-- The instant that a stamp denotes, by the zone that it names. -/
def instantOf (text : List Char) : Option Int :=
  match scan (clockFormat ++ [.number 4]) text with
  | [year, month, day, hour, minute, second, milli, zone] =>
    let seconds := 86400 * Calendar.daysOf { year := year, month := month, day := day } +
      3600 * hour + 60 * minute + second
    some ((seconds - 3600 * zone.tdiv 100 - 60 * zone.tmod 100) * 1000 + milli)
  | _ => none

/-! ## The order of the local times -/

/-- The numbers of a stamp and of a name. -/
def Zone.fields (zone : Zone) (time : Int) : List Int :=
  let ptm := zone.localtime (time / 1000)
  [ptm.year + 1900, ptm.mon + 1, ptm.mday, ptm.hour, ptm.min, ptm.sec, time % 1000]

/-- A time from 1970 on whose year has at most four digits. -/
def Zone.FourDigits (zone : Zone) (time : Int) : Prop :=
  0 ≤ time ∧ 0 ≤ (zone.localtime (time / 1000)).year + 1900 ∧
    (zone.localtime (time / 1000)).year + 1900 < 10000

instance (zone : Zone) (time : Int) : Decidable (zone.FourDigits time) :=
  inferInstanceAs (Decidable (_ ∧ _))

variable {zone : Zone} {offset t u : Int}

theorem Zone.FixedOffset.fields_inWidths (h : zone.FixedOffset) (ht : zone.FourDigits t) :
    InWidths timeFileFormat (zone.fields t) ∧ InWidths iso8601Format (zone.fields t) := by
  obtain ⟨h0, hyear, hyear'⟩ := ht
  have hmon := h.mon (t / 1000)
  have hmday := h.mday (t / 1000)
  have hhour := h.hour (t / 1000)
  have hmin := h.min (t / 1000)
  have hsec := h.sec (t / 1000)
  unfold Zone.fields timeFileFormat iso8601Format clockFormat
  simp only [List.cons_append, List.nil_append, InWidths, and_true]
  omega

/-- The fields are printed as they are. -/
theorem Zone.FixedOffset.print_fields (h : zone.FixedOffset) (ht : zone.FourDigits t) :
    backupName zone t = print timeFileFormat (zone.fields t) ++ ".txt".toList ∧
      stamp zone t = print iso8601Format (zone.fields t) := by
  obtain ⟨hname, hiso⟩ := h.fields_inWidths ht
  obtain ⟨h0, hyear, hyear'⟩ := ht
  have hs : t.tdiv 1000 = t / 1000 := Int.tdiv_eq_ediv_of_nonneg h0
  have hms : t.tmod 1000 = t % 1000 := Int.tmod_eq_emod_of_nonneg h0
  have hmon := h.mon (t / 1000)
  have hy : int ((zone.localtime (t / 1000)).year + 1900) =
      (zone.localtime (t / 1000)).year + 1900 := IsInt.int_eq ⟨by omega, by omega⟩
  have hm : int ((zone.localtime (t / 1000)).mon + 1) =
      (zone.localtime (t / 1000)).mon + 1 := IsInt.int_eq ⟨by omega, by omega⟩
  have hlen := hname.length_print
  have hlen' := hiso.length_print
  unfold backupName getTimeFileFormat stamp getIso8601Format
  dsimp only
  rw [hs, hms, hy, hm]
  constructor
  · rw [← Zone.fields, List.take_of_length_le (hlen.trans_le (by decide))]
  · rw [← Zone.fields, List.take_of_length_le (hlen'.trans_le (by decide))]

/-- Where the zone has a fixed offset, the fields of a later time are greater. -/
theorem fields_lt (h : t < u) :
    (Zone.ahead offset).fields t < (Zone.ahead offset).fields u := by
  obtain ⟨s, hs⟩ : ∃ s, s = t / 1000 + offset := ⟨_, rfl⟩
  obtain ⟨r, hr⟩ : ∃ r, r = u / 1000 + offset := ⟨_, rfl⟩
  have hsplit (time : Int) :
      (Zone.ahead offset).fields time =
        (Calendar.dateOf ((time / 1000 + offset) / 86400)).fields ++
          [(time / 1000 + offset) % 86400 / 3600, (time / 1000 + offset) % 86400 % 3600 / 60,
            (time / 1000 + offset) % 86400 % 60, time % 1000] := by
    unfold Zone.fields Zone.ahead Calendar.Date.fields
    dsimp only
    rw [Int.sub_add_cancel, Int.sub_add_cancel]
    rfl
  have hlen (d e : Calendar.Date) : d.fields.length = e.fields.length := rfl
  rw [hsplit, hsplit, lexAppend_lt_iff (hlen _ _), ← hs, ← hr]
  rcases Int.lt_trichotomy (s / 86400) (r / 86400) with hday | hday | hday
  · exact .inl (Calendar.dateOf_lt hday)
  · refine .inr ⟨by rw [hday], ?_⟩
    simp only [List.cons_lt_cons_iff, List.lt_irrefl, and_false, or_false]
    omega
  · omega

theorem fields_lt_iff :
    (Zone.ahead offset).fields t < (Zone.ahead offset).fields u ↔ t < u := by
  refine ⟨fun hlt => ?_, fields_lt⟩
  rcases Int.lt_trichotomy t u with htu | rfl | htu
  · exact htu
  · exact absurd hlt (List.lt_irrefl _)
  · exact absurd hlt (List.lt_asymm (fields_lt htu))

/-- Stamps come in the order of the times. -/
theorem stamp_lt_iff (ht : (Zone.ahead offset).FourDigits t)
    (hu : (Zone.ahead offset).FourDigits u) :
    stamp (Zone.ahead offset) t < stamp (Zone.ahead offset) u ↔ t < u := by
  have hzone := Zone.ahead_fixedOffset offset
  rw [(hzone.print_fields ht).2, (hzone.print_fields hu).2,
    print_lt_iff (hzone.fields_inWidths ht).2 (hzone.fields_inWidths hu).2, fields_lt_iff]

/-- Names of backups come in the order of the times. -/
theorem backupName_lt_iff (ht : (Zone.ahead offset).FourDigits t)
    (hu : (Zone.ahead offset).FourDigits u) :
    backupName (Zone.ahead offset) t < backupName (Zone.ahead offset) u ↔ t < u := by
  have hzone := Zone.ahead_fixedOffset offset
  have hlen := (hzone.fields_inWidths ht).1.length_print
  rw [← (hzone.fields_inWidths hu).1.length_print] at hlen
  rw [(hzone.print_fields ht).1, (hzone.print_fields hu).1, lexAppend_lt_right hlen,
    print_lt_iff (hzone.fields_inWidths ht).1 (hzone.fields_inWidths hu).1, fields_lt_iff]

/-- A stamp is 28 bytes of ASCII. -/
theorem stamp_ascii (h : zone.FixedOffset) (ht : zone.FourDigits t) :
    (stamp zone t).length = 28 ∧ ∀ c ∈ stamp zone t, c.toNat < 128 := by
  obtain ⟨-, hfits⟩ := h.fields_inWidths ht
  rw [(h.print_fields ht).2]
  refine ⟨hfits.length_print, fun c hc => ?_⟩
  rcases hfits.mem_print hc with hdigit | hchar
  · have hrange := isDigit_toNat hdigit
    omega
  · have hall : ∀ d ∈ iso8601Format, ∀ c, d = .char c → c.toNat < 128 := by
      unfold iso8601Format clockFormat
      simp
    exact hall _ hchar c rfl

theorem stampBytes_lt_iff (ht : (Zone.ahead offset).FourDigits t)
    (hu : (Zone.ahead offset).FourDigits u) :
    stampBytes (Zone.ahead offset) t < stampBytes (Zone.ahead offset) u ↔ t < u := by
  have hzone := Zone.ahead_fixedOffset offset
  obtain ⟨-, hascii⟩ := stamp_ascii hzone ht
  obtain ⟨-, hascii'⟩ := stamp_ascii hzone hu
  unfold stampBytes
  rw [lexMap_lt_iff, stamp_lt_iff ht hu]
  intro c hc d hd
  have hc := hascii c hc
  have hd := hascii' d hd
  have hsame (c : Char) (hc : c.toNat < 128) : (UInt8.ofNat c.toNat).toNat = c.toNat := by
    rw [UInt8.toNat_ofNat']
    exact Nat.mod_eq_of_lt (by omega)
  refine ⟨?_, ?_⟩
  · rw [UInt8.lt_iff_toNat_lt, hsame c hc, hsame d hd]
    rfl
  · rw [← UInt8.toNat_inj, hsame c hc, hsame d hd, Char.toNat_inj]

/-! ## The instant -/

/-- The zone that a stamp names is eight hours ahead. -/
theorem instantOf_stamp (ht : (Zone.ahead offset).FourDigits t) :
    instantOf (stamp (Zone.ahead offset) t) = some (t + (offset - 28800) * 1000) := by
  have hzone := Zone.ahead_fixedOffset offset
  have hdelimited : Delimited clockFormat := by
    unfold clockFormat
    simp only [Delimited]
    decide
  have halike : Alike clockFormat clockFormat := by
    unfold clockFormat
    repeat constructor
  rw [(hzone.print_fields ht).2]
  have hsplit : print iso8601Format ((Zone.ahead offset).fields t) =
      print clockFormat ((Zone.ahead offset).fields t) ++ "+0800".toList := by
    unfold iso8601Format clockFormat Zone.fields
    simp [print]
  have hplus : NoDigit "+0800".toList := by
    intro c hc
    obtain rfl : '+' = c := Option.some.inj hc
    rfl
  have hzero : scan [.number 4] "+0800".toList = [800] := by decide +kernel
  unfold instantOf
  rw [hsplit, scan_print halike hdelimited rfl hplus, hzero]
  unfold Zone.fields Zone.ahead
  dsimp only [List.cons_append, List.nil_append]
  have hdays := Calendar.daysOf_dateOf ((t / 1000 + offset) / 86400)
  rw [Int.sub_add_cancel, Int.sub_add_cancel, hdays]
  have h80 : (800 : Int).tdiv 100 = 8 ∧ (800 : Int).tmod 100 = 0 := by decide
  rw [h80.1, h80.2]
  congr 1
  omega

/-- The stamp of a record denotes the time it was made at if and only if the log runs eight
hours ahead. -/
theorem stamp_instant {offset t : Int} (ht : (Zone.ahead offset).FourDigits t) :
    instantOf (stamp (Zone.ahead offset) t) = some (t + (offset - 28800) * 1000) ∧
      (instantOf (stamp (Zone.ahead offset) t) = some t ↔ offset = 28800) := by
  have hinstant := instantOf_stamp ht
  refine ⟨hinstant, ?_⟩
  rw [hinstant, Option.some.injEq]
  omega

/-- The first second of 1970 in London: by its stamp it is still 1969. -/
theorem stamp_instant_london :
    stamp (Zone.ahead 0) 0 = "1970-01-01T00:00:00.000+0800".toList ∧
      instantOf (stamp (Zone.ahead 0) 0) = some (-28800000) := by
  have hdigits : (Zone.ahead 0).FourDigits 0 := by decide
  exact ⟨by decide +kernel, (stamp_instant hdigits).1⟩

/-! ## Runs -/

structure StampedRun where
  run : LogRun := {}
  /-- the last reading of the clock -/
  clock : Int := 0
  /-- when the records that are kept were made -/
  times : List Int := []

inductive StampAct
  /-- a call of `_log`, and what `getSystemTimeMs` answers -/
  | log (c : LogCall) (e : FlushEnv) (time : Int)
  /-- `LOG_CONFIG` -/
  | config (logLevel : Int) (maxSize : Int)
  | flush (e : FlushEnv)

/-- What the log does: the stamp is made from the clock. -/
def StampAct.act (zone : Zone) : StampAct → LogAct
  | .log c e time => .log { c with time := stampBytes zone time } e
  | .config logLevel maxSize => .config logLevel maxSize
  | .flush e => .flush e

def StampedRun.step (zone : Zone) (s : StampedRun) (a : StampAct) : Option StampedRun :=
  (s.run.step (a.act zone)).map fun run =>
    match a with
    | .log c _ time =>
      { run := run, clock := time
        times := if c.level ≤ s.run.log.logLevel then s.times ++ [time] else s.times }
    | _ => { s with run := run }

/-- The clock does not go back. -/
def StampAct.ClockOn (zone : Zone) (s : StampedRun) : StampAct → Prop
  | .log _ _ time => s.clock ≤ time ∧ zone.FourDigits time
  | _ => True

instance (zone : Zone) (s : StampedRun) : (a : StampAct) → Decidable (a.ClockOn zone s)
  | .log _ _ time => inferInstanceAs (Decidable (s.clock ≤ time ∧ zone.FourDigits time))
  | .config _ _ => .isTrue trivial
  | .flush _ => .isTrue trivial

/-- The record begins with the stamp of that time. -/
def Begins (zone : Zone) (record : Bytes) (time : Int) : Prop :=
  zone.FourDigits time ∧ record.take 28 = stampBytes zone time

theorem begins_record (h : zone.FixedOffset) (ht : zone.FourDigits t) (c : LogCall) :
    Begins zone { c with time := stampBytes zone t }.record t := by
  refine ⟨ht, ?_⟩
  have hlen : (stampBytes zone t).length = 28 := by
    unfold stampBytes
    rw [List.length_map, (stamp_ascii h ht).1]
  unfold LogCall.record
  simp only [List.append_assoc]
  exact List.take_left' hlen

/-- What holds as long as the clock does not go back. -/
structure StampedRun.InOrder (zone : Zone) (s : StampedRun) : Prop where
  begins : List.Forall₂ (Begins zone) s.run.logged s.times
  sorted : s.times.Pairwise (· ≤ ·)
  clock : ∀ time ∈ s.times, time ≤ s.clock

variable {s s' : StampedRun} {a : StampAct} {d0 : Bytes}

theorem StampedRun.step_run (hs : s.step zone a = some s') :
    s.run.step (a.act zone) = some s'.run := by
  unfold StampedRun.step at hs
  obtain ⟨run, hrun, rfl⟩ := Option.map_eq_some_iff.mp hs
  cases a <;> exact hrun

/-- What a step does to the records that are kept. -/
theorem StampedRun.step_cases (hs : s.step zone a = some s') :
    (s'.run.logged = s.run.logged ∧ s'.times = s.times ∧
        (s'.clock = s.clock ∨ ∃ c e, a = .log c e s'.clock)) ∨
      ∃ c e time, a = .log c e time ∧ s'.clock = time ∧ s'.times = s.times ++ [time] ∧
        s'.run.logged = s.run.logged ++ [{ c with time := stampBytes zone time }.record] := by
  unfold StampedRun.step at hs
  obtain ⟨run, hrun, rfl⟩ := Option.map_eq_some_iff.mp hs
  unfold LogRun.step at hrun
  split at hrun
  · cases hrun
  · cases a with
    | log c e time =>
      cases hrun
      dsimp only
      by_cases hkeep : c.level ≤ s.run.log.logLevel
      · rw [if_pos hkeep, if_pos hkeep]
        exact .inr ⟨c, e, time, rfl, rfl, rfl, rfl⟩
      · rw [if_neg hkeep, if_neg hkeep]
        exact .inl ⟨rfl, rfl, .inr ⟨c, e, rfl⟩⟩
    | config logLevel maxSize =>
      cases hrun
      exact .inl ⟨rfl, rfl, .inl rfl⟩
    | flush e =>
      cases hrun
      exact .inl ⟨rfl, rfl, .inl rfl⟩

theorem StampedRun.InOrder.step (h : zone.FixedOffset) (hin : s.InOrder zone)
    (hforward : a.ClockOn zone s) (hs : s.step zone a = some s') : s'.InOrder zone := by
  rcases StampedRun.step_cases hs with
    ⟨hlogged, htimes, hclock⟩ | ⟨c, e, time, rfl, hclock, htimes, hlogged⟩
  · have hlater : s.clock ≤ s'.clock := by
      rcases hclock with hclock | ⟨c, e, rfl⟩
      · omega
      · exact hforward.1
    refine ⟨?_, ?_, ?_⟩
    · rw [hlogged, htimes]
      exact hin.begins
    · rw [htimes]
      exact hin.sorted
    · rw [htimes]
      exact fun t ht => Int.le_trans (hin.clock t ht) hlater
  · obtain ⟨hnow, hdigits⟩ := hforward
    refine ⟨?_, ?_, ?_⟩
    · rw [hlogged, htimes]
      exact List.rel_append hin.begins (.cons (begins_record h hdigits c) .nil)
    · rw [htimes, List.pairwise_append]
      refine ⟨hin.sorted, List.pairwise_singleton _ _, fun t ht u hu => ?_⟩
      obtain rfl := List.mem_singleton.mp hu
      exact Int.le_trans (hin.clock t ht) hnow
    · rw [htimes, hclock]
      intro t ht
      rcases List.mem_append.mp ht with hold | hnew
      · exact Int.le_trans (hin.clock t hold) hnow
      · exact Int.le_of_eq (List.mem_singleton.mp hnew)

/-- The stamps are sorted as the times are. -/
theorem StampedRun.InOrder.stamps (h : s.InOrder (Zone.ahead offset)) :
    s.run.logged.Pairwise fun a b => ¬ b.take 28 < a.take 28 := by
  obtain ⟨hbegins, hsorted, -⟩ := h
  generalize s.run.logged = records at *
  generalize s.times = times at *
  induction hbegins with
  | nil => exact .nil
  | @cons record time records times hfirst hrest ih =>
    obtain ⟨hle, hsorted⟩ := List.pairwise_cons.mp hsorted
    refine .cons (fun other hother => ?_) (ih hsorted)
    obtain ⟨i, hi, rfl⟩ := List.getElem_of_mem hother
    have hit : i < times.length := hrest.length_eq ▸ hi
    have hother : Begins (Zone.ahead offset) records[i] times[i] := hrest.get hi hit
    rw [hfirst.2, hother.2, stampBytes_lt_iff hother.1 hfirst.1]
    exact Int.not_lt.mpr (hle _ (List.getElem_mem _))

/-- With a clock that does not go back, the log is its records one after the other, each with
the stamp of its time, and no record has a lesser stamp than one in front of it. -/
theorem records_in_order (offset maxSize : Int) (d0 : Bytes) {s : StampedRun}
    (h : ReachIf (StampedRun.step (Zone.ahead offset))
      (fun s a => a.ClockOn (Zone.ahead offset) s ∧ (a.act (Zone.ahead offset)).Short ∧
        (a.act (Zone.ahead offset)).Writes)
      { run := { log := { disk := d0, maxSize := maxSize } } } s) :
    s.run.log.reached ++ s.run.log.pending = d0 ++ s.run.logged.flatten ∧
      List.Forall₂ (Begins (Zone.ahead offset)) s.run.logged s.times ∧
      s.times.Pairwise (· ≤ ·) ∧
      s.run.logged.Pairwise fun a b => ¬ b.take 28 < a.take 28 := by
  have hzone := Zone.ahead_fixedOffset offset
  have hfits : Fits { disk := d0, maxSize := maxSize } := ⟨Nat.le_refl 0, .inr ⟨rfl, rfl⟩⟩
  have hlaw : Law d0 { log := { disk := d0, maxSize := maxSize } } := rfl
  obtain ⟨⟨-, hlaw⟩, hin⟩ := h.invariant
    (I := fun s => (Fits s.run.log ∧ Law d0 s.run) ∧ s.InOrder (Zone.ahead offset))
    ⟨⟨hfits, hlaw⟩, .nil, .nil, fun _ ht => absurd ht List.not_mem_nil⟩
    fun s a t ⟨⟨hfits, hlaw⟩, hin⟩ ⟨hforward, hshort, hwrites⟩ hs => by
      obtain ⟨hfits', hiff⟩ := LogRun.step_law hfits hlaw hshort (StampedRun.step_run hs)
      exact ⟨⟨hfits', hiff.mpr hwrites.tailKept⟩, hin.step hzone hforward hs⟩
  exact ⟨hlaw, hin.begins, hin.sorted, hin.stamps⟩

end VideoPlayerCore
