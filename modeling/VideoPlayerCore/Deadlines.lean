import VideoPlayerCore.CInts

/-!
# The timed waits of thread.h

`sema_wait_time` and `cond_wait_time` read a clock, add the timeout to its seconds and to its
nanoseconds, and wait until then.  Nothing is carried from the nanoseconds to the seconds:

    the deadline is valid             ↔ tv_nsec + ms % 1000 * 1000000 < 1000000000
                                                                     (valid_waitTime_iff)
    it is `ms` milliseconds from now  ↔ tv_sec + ms / 1000 < 2 ^ 63  (nanos_waitTime_iff)
-/

namespace VideoPlayerCore

/-- `struct timespec` -/
structure Timespec where
  tvSec : Int
  tvNsec : Int
  deriving DecidableEq

namespace Timespec

/-- A wait takes such a deadline only. -/
def Valid (t : Timespec) : Prop := 0 ≤ t.tvNsec ∧ t.tvNsec < 1000000000

instance : DecidablePred Valid := fun _ => inferInstanceAs (Decidable (_ ∧ _))

/-- The time in nanoseconds. -/
def nanos (t : Timespec) : Int := t.tvSec * 1000000000 + t.tvNsec

end Timespec

/-- What `clock_gettime` reports. -/
structure ClockTime extends Timespec where
  sec_range : 0 ≤ tvSec ∧ tvSec < 2 ^ 63
  valid : toTimespec.Valid

inductive ClockId
  | monotonic
  | realtime
  deriving DecidableEq

/-- The calls that wait until a deadline. -/
inductive TimedWait
  | semClockwait (clock : ClockId)
  | semTimedwait
  | pthreadCondTimedwait
  deriving DecidableEq

/-- The clock that the deadline is compared with.  `cond_create` sets no other one. -/
def TimedWait.clock : TimedWait → ClockId
  | .semClockwait clock => clock
  | .semTimedwait => .realtime
  | .pthreadCondTimedwait => .realtime

/-- A call and the `time` that it is handed. -/
structure Deadline where
  call : TimedWait
  time : Timespec
  deriving DecidableEq

/-- `__GLIBC__` and `__GLIBC_MINOR__`, both 0 where they are not defined -/
structure Libc where
  glibc : Nat
  glibcMinor : Nat

/-- `__GLIBC__ >= 2 && __GLIBC_MINOR__ >= 30` -/
def Libc.HasClockwait (libc : Libc) : Prop := 2 ≤ libc.glibc ∧ 30 ≤ libc.glibcMinor

instance : DecidablePred Libc.HasClockwait := fun _ => inferInstanceAs (Decidable (_ ∧ _))

section

variable (clocks : ClockId → ClockTime)

/-- The body of the macros: `clock_gettime`, the two additions, the call. -/
def waitTime (clock : ClockId) (call : TimedWait) (ms : Int) : Deadline where
  call := call
  time := {
    tvSec := timeT ((clocks clock).tvSec + ms.tdiv 1000)
    tvNsec := long ((clocks clock).tvNsec + int (ms.tmod 1000 * 1000000)) }

def semaWaitTime (libc : Libc) (ms : Int) : Deadline :=
  if libc.HasClockwait then waitTime clocks .monotonic (.semClockwait .monotonic) ms
  else waitTime clocks .realtime .semTimedwait ms

def condWaitTime (ms : Int) : Deadline := waitTime clocks .realtime .pthreadCondTimedwait ms

/-- The deadline is valid and `ms` milliseconds from now, on the clock that it is compared
with. -/
structure Deadline.Exact (ms : Int) (d : Deadline) : Prop where
  valid : d.time.Valid
  nanos : d.time.nanos = (clocks d.call.clock).nanos + ms * 1000000

end

/-- The nanoseconds stay below a second, and the seconds in a `time_t`. -/
def ClockTime.Carryless (now : ClockTime) (ms : Int) : Prop :=
  now.tvNsec + ms % 1000 * 1000000 < 1000000000 ∧ now.tvSec + ms / 1000 < 2 ^ 63

instance (now : ClockTime) (ms : Int) : Decidable (now.Carryless ms) :=
  inferInstanceAs (Decidable (_ ∧ _))

/-- The clock that `sema_wait_time` reads. -/
def Libc.semaClock (libc : Libc) : ClockId := if libc.HasClockwait then .monotonic else .realtime

section

variable (clocks : ClockId → ClockTime) (clock : ClockId) (call : TimedWait) {ms : Int}

/-- Only the seconds may leave their type. -/
theorem time_waitTime (hms : 0 ≤ ms) :
    (waitTime clocks clock call ms).time = {
      tvSec := timeT ((clocks clock).tvSec + ms / 1000)
      tvNsec := (clocks clock).tvNsec + ms % 1000 * 1000000 } := by
  obtain ⟨h0, h1⟩ := (clocks clock).valid
  have hint : IsInt (ms % 1000 * 1000000) := by constructor <;> omega
  have hlong : IsInt ((clocks clock).tvNsec + ms % 1000 * 1000000) := by constructor <;> omega
  rw [waitTime, Int.tdiv_eq_ediv_of_nonneg hms, Int.tmod_eq_emod_of_nonneg hms, hint.int_eq,
    hlong.long_eq]

theorem valid_waitTime_iff (hms : 0 ≤ ms) :
    (waitTime clocks clock call ms).time.Valid ↔
      (clocks clock).tvNsec + ms % 1000 * 1000000 < 1000000000 := by
  obtain ⟨h0, -⟩ := (clocks clock).valid
  rw [time_waitTime clocks clock call hms]
  constructor
  · intro h
    exact h.2
  · intro h
    refine ⟨?_, h⟩
    show 0 ≤ (clocks clock).tvNsec + ms % 1000 * 1000000
    omega

/-- `ms` milliseconds are `ms / 1000` seconds and the nanoseconds that are added. -/
theorem nanos_waitTime_iff (hms : 0 ≤ ms) :
    (waitTime clocks clock call ms).time.nanos = (clocks clock).nanos + ms * 1000000 ↔
      (clocks clock).tvSec + ms / 1000 < 2 ^ 63 := by
  have hsec := (clocks clock).sec_range
  have hsplit : ms = ms / 1000 * 1000 + ms % 1000 := by omega
  rw [time_waitTime clocks clock call hms, ← timeT_eq_iff (by omega)]
  unfold Timespec.nanos
  dsimp only
  omega

/-- The call goes by the clock that was read. -/
theorem waitTime_exact_iff (hms : 0 ≤ ms) :
    (waitTime clocks call.clock call ms).Exact clocks ms ↔
      (clocks call.clock).Carryless ms := by
  constructor
  · intro h
    exact ⟨(valid_waitTime_iff clocks call.clock call hms).mp h.valid,
      (nanos_waitTime_iff clocks call.clock call hms).mp h.nanos⟩
  · rintro ⟨hcarry, hsec⟩
    exact ⟨(valid_waitTime_iff clocks call.clock call hms).mpr hcarry,
      (nanos_waitTime_iff clocks call.clock call hms).mpr hsec⟩

/-- **The deadlines of the timed waits.**  At every time and for every timeout the deadline is
valid and exact if and only if the nanoseconds stay below a second and the seconds in a
`time_t`. -/
theorem deadline_exact_iff (hms : 0 ≤ ms) :
    (∀ libc : Libc, (semaWaitTime clocks libc ms).Exact clocks ms ↔
      (clocks libc.semaClock).Carryless ms) ∧
    ((condWaitTime clocks ms).Exact clocks ms ↔ (clocks .realtime).Carryless ms) := by
  constructor
  · intro libc
    unfold semaWaitTime Libc.semaClock
    split
    · exact waitTime_exact_iff clocks (.semClockwait .monotonic) hms
    · exact waitTime_exact_iff clocks .semTimedwait hms
  · exact waitTime_exact_iff clocks .pthreadCondTimedwait hms

end

/-- 100 seconds and 400 milliseconds on each clock -/
def firstHalf (_ : ClockId) : ClockTime where
  tvSec := 100
  tvNsec := 400000000
  sec_range := by decide
  valid := by decide

/-- 100 seconds and 600 milliseconds -/
def secondHalf (_ : ClockId) : ClockTime where
  tvSec := 100
  tvNsec := 600000000
  sec_range := by decide
  valid := by decide

/-- In the first half of a second half a second can be added. -/
theorem deadline_exact_first_half :
    (semaWaitTime firstHalf ⟨2, 31⟩ 500).Exact firstHalf 500 ∧
      (condWaitTime firstHalf 500).Exact firstHalf 500 := by
  obtain ⟨hsema, hcond⟩ := deadline_exact_iff firstHalf (show (0 : Int) ≤ 500 by decide)
  exact ⟨(hsema _).mpr (by decide), hcond.mpr (by decide)⟩

/-- In the second half it makes the deadline invalid. -/
theorem deadline_invalid_second_half :
    ¬(semaWaitTime secondHalf ⟨2, 31⟩ 500).Exact secondHalf 500 ∧
      ¬(semaWaitTime secondHalf ⟨2, 29⟩ 500).Exact secondHalf 500 ∧
      ¬(condWaitTime secondHalf 500).Exact secondHalf 500 := by
  refine ⟨fun h => ?_, fun h => ?_, fun h => ?_⟩
  · exact absurd h.valid (by decide)
  · exact absurd h.valid (by decide)
  · exact absurd h.valid (by decide)

end VideoPlayerCore
