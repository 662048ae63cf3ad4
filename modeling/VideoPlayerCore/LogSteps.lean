import Mathlib.Algebra.GroupWithZero.Nat
import VideoPlayerCore.ByteStore
import VideoPlayerCore.Machine

/-!
# The log

`_log` appends a record to `_buffer`, piece by piece, and then decides by its level: it is
kept, kept and flushed, or taken back and only printed.  `flushBuffer` writes the buffer to
log.txt and rotates the file when it has grown to `_maxSize`.

Sizes are natural numbers, without the casts to `int`: below 2 GiB they count what the counters
with the casts count (LogRun.step_counts).  `vsnprintf` does not fail.  What `LOG_CONFIG` does
about the directory and what `cleanDirectory` does to the backups touches none of the data here.
-/

namespace VideoPlayerCore

open ByteStore

abbrev Bytes := List UInt8

/-- What `printf("%s", ..)` prints. -/
def cString (bytes : Bytes) : Bytes := bytes.takeWhile (· ≠ 0)

/-- A text in the source, in ASCII. -/
def ascii (text : String) : Bytes := text.toList.map fun c => UInt8.ofNat c.toNat

/-- `%d` -/
def decimal (n : Int) : Bytes := ascii (toString n)

structure LogState where
  /-- the block that `_buffer` points to; none for `NULL`; 0 where nothing was stored yet -/
  buffer : Bytes := []
  bufferSize : Nat := 0
  bufferCapacity : Nat := 0
  logLevel : Int := 4
  maxSize : Int := 1024 * 1024 * 10
  /-- `_thread` is not 0 -/
  thread : Bool := false
  /-- `_fileName` is not empty -/
  named : Bool := false
  /-- `_file` is not `NULL` -/
  isOpen : Bool := false
  /-- what is in log.txt -/
  disk : Bytes := []
  /-- the texts printed, the error messages aside -/
  console : List Bytes := []
  /-- for every rotation whether `rename` worked, and what was in log.txt -/
  rotations : List (Bool × Bytes) := []
  exited : Bool := false
  deriving DecidableEq

/-- A call of `_log` and what it finds out about time, thread and format. -/
structure LogCall where
  time : Bytes
  label : Bytes
  file : Bytes
  line : Int
  threadId : Int
  funcName : Bytes
  /-- the formatted message -/
  text : Bytes
  /-- what a second `vsnprintf` makes of the `va_list` that the first one has gone through -/
  again : Bytes
  level : Int
  deriving DecidableEq

/-- How the file system answers a flush. -/
structure FlushEnv where
  opens : Bool := true
  /-- how much `fwrite` accepts at most, call by call -/
  accepts : Nat → Nat
  renames : Bool := true

namespace LogState

/-! ## The buffer -/

/-- `realloc(_buffer, size)` -/
def realloc (s : LogState) (size : Nat) : LogState :=
  { s with buffer := s.buffer.take size ++ List.replicate (size - s.buffer.length) 0 }

/-- `getBuffer(len)`; the pointer is an index of `_buffer`. -/
def getBuffer (s : LogState) (len : Nat) : LogState × Nat :=
  let leftSize := s.bufferCapacity - s.bufferSize
  let s :=
    if leftSize < len then
      let bufferCapacity := s.bufferCapacity + len * 2 - leftSize
      { s with bufferCapacity := bufferCapacity }.realloc (bufferCapacity + 4)
    else s
  ({ s with bufferSize := s.bufferSize + len }, s.bufferSize)

def returnBuffer (s : LogState) (len : Nat) : LogState :=
  { s with bufferSize := s.bufferSize - len }

/-- A store through a pointer into `_buffer`. -/
def put (s : LogState) (i : Nat) (bytes : Bytes) : LogState :=
  { s with buffer := store s.buffer i bytes }

/-- `pushToBuffer(buf, len)` -/
def pushToBuffer (s : LogState) (buf : Bytes) (len : Nat) : LogState :=
  let (s, i) := s.getBuffer len
  s.put i (buf.take len)

/-- `vsnprintf(buf, size, ..)`, which returns the length of the text -/
def vsnprintf (s : LogState) (buf size : Nat) (text : Bytes) : LogState :=
  s.put buf (text.take (size - 1) ++ [0])

/-! ## flushBuffer -/

/-- The loop of `fwrite` calls, from call `k` on: `_bufferSize` and the file after it. -/
def writeLoop (buffer : Bytes) (accepts : Nat → Nat) :
    Nat → Nat → Nat → Nat → Bytes → Nat × Bytes
  | 0, _, _, bufferSize, disk => (bufferSize, disk)
  | fuel + 1, k, pBuf, bufferSize, disk =>
    let ret := min (accepts k) bufferSize
    if ret = 0 then (bufferSize, disk)
    else
      let disk := disk ++ (buffer.drop pBuf).take ret
      if bufferSize - ret = 0 then (0, disk)
      else writeLoop buffer accepts fuel (k + 1) (pBuf + ret) (bufferSize - ret) disk

/-- `size >= _maxSize`: the file is closed and renamed. -/
def rotate (s : LogState) (renames : Bool) : LogState :=
  { s with
    named := false, isOpen := false, disk := if renames then [] else s.disk,
    rotations := s.rotations ++ [(renames, s.disk)] }

def flushBuffer (s : LogState) (e : FlushEnv) : LogState × Nat :=
  let s := if s.named then s else { s with named := true, isOpen := s.isOpen || e.opens }
  if s.buffer ≠ [] ∧ 0 < s.bufferSize then
    let size := s.bufferSize
    if s.isOpen then
      let s := s.put s.bufferSize [0]
      let s := { s with console := s.console ++ [cString s.buffer] }
      -- every call but a failing one shortens what is left
      let (bufferSize, disk) := writeLoop s.buffer e.accepts size 0 0 s.bufferSize s.disk
      let s := { s with bufferSize := bufferSize, disk := disk }
      (if s.maxSize ≤ s.disk.length then s.rotate e.renames else s, size)
    else (s, size)
  else (s, 0)

/-! ## _log -/

/-- `total_len += n; pushToBuffer(buf, len);` -/
def push (st : LogState × Nat) (n : Nat) (buf : Bytes) (len : Nat) : LogState × Nat :=
  (st.1.pushToBuffer buf len, st.2 + n)

/-- The message: formatted into 512 bytes, and once more when these are too few.  The second
pass gets `valist` as the first one has left it. -/
def pushText (st : LogState × Nat) (text again : Bytes) : LogState × Nat :=
  let (s, buf) := st.1.getBuffer 512
  let s := s.vsnprintf buf 512 text
  let ret := text.length
  if ret ≤ 512 then (s.returnBuffer (512 - ret), st.2 + ret)
  else
    let (s, buf) := s.getBuffer (ret - 512)
    (s.vsnprintf buf (ret + 1) again, st.2 + ret)

/-- The record is appended; the result is `total_len`. -/
def append (s : LogState) (c : LogCall) : LogState × Nat :=
  let st := push (s, 0) c.time.length c.time c.time.length
  let st := push st 1 (ascii " ") 1
  let st := push st c.label.length c.label c.label.length
  let st := push st 1 (ascii " ") 1
  let st := push st c.file.length c.file c.file.length
  let st := push st 1 (ascii ":") 1
  let st := push st (decimal c.line).length (decimal c.line) (decimal c.line).length
  let st := push st 1 (ascii " ") 1
  let st := push st 1 (ascii "<") 1
  let st := push st (decimal c.threadId).length (decimal c.threadId) (decimal c.threadId).length
  let st := push st 2 (ascii "> ") 2
  let st := push st c.funcName.length c.funcName c.funcName.length
  let st := push st 1 (ascii " ") 1
  let st := pushText st c.text c.again
  push st 2 (ascii "\r\n") 2

/-- The branch for a level that is not to be logged. -/
def takeBack (s : LogState) (totalLen : Nat) : LogState :=
  let (s, buf) := s.getBuffer 0
  let logStr := buf - totalLen
  let s := s.put (logStr + totalLen) [0]
  let s := { s with console := s.console ++ [cString (s.buffer.drop logStr)] }
  s.returnBuffer totalLen

/-- `_log`; `thread_create` succeeds. -/
def log (s : LogState) (c : LogCall) (e : FlushEnv) : LogState :=
  let (s, totalLen) := s.append c
  if c.level ≤ s.logLevel then
    if c.level ≤ 3 then
      let s := (s.flushBuffer e).1
      if c.level = 0 then { s with exited := true } else s
    else { s with thread := true }
  else s.takeBack totalLen

end LogState

/-! ## Runs -/

inductive LogAct
  /-- any bytes -/
  | push (bytes : Bytes)
  | log (c : LogCall) (e : FlushEnv)
  /-- `LOG_CONFIG` -/
  | config (logLevel : Int) (maxSize : Int)
  | flush (e : FlushEnv)

/-- What `_log` makes of a call, as bytes. -/
def LogCall.record (c : LogCall) : Bytes :=
  c.time ++ ascii " " ++ c.label ++ ascii " " ++ c.file ++ ascii ":" ++ decimal c.line ++
    ascii " " ++ ascii "<" ++ decimal c.threadId ++ ascii "> " ++ c.funcName ++ ascii " " ++
    c.text ++ ascii "\r\n"

structure LogRun where
  log : LogState := {}
  /-- what was pushed and not taken back, in order -/
  logged : List Bytes := []

def LogRun.step (s : LogRun) (a : LogAct) : Option LogRun :=
  if s.log.exited then none
  else
    match a with
    | .push bytes => some
      { log := s.log.pushToBuffer bytes bytes.length, logged := s.logged ++ [bytes] }
    | .log c e => some
      { log := s.log.log c e
        logged := if c.level ≤ s.log.logLevel then s.logged ++ [c.record] else s.logged }
    | .config logLevel maxSize => some
      { s with log := { s.log with logLevel := logLevel, maxSize := maxSize } }
    | .flush e => some { s with log := (s.log.flushBuffer e).1 }

/-- What is in the buffer. -/
def LogState.pending (s : LogState) : Bytes := s.buffer.take s.bufferSize

end VideoPlayerCore
