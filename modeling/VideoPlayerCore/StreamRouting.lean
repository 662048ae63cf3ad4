import Mathlib.Data.List.Basic
import VideoPlayerCore.DecoderDelivers
import VideoPlayerCore.Machine
import VideoPlayerCore.ReadSteps

/-!
# Which packets go to which decoder

`_readThread` takes the first video and the first audio stream of the file, gives up on one
whose `open` fails, and sends every packet by its `stream_index`.  `ReadWorld` knows a packet
only as video, audio or other; here these are what the indices say.

    selectStreams types 0 {} = the first index of each type             (selectStreams_eq)
    FileWorld.step is ReadWorld.step under `label`                       (step_refines_read)
    what is written to a decoder = the packets of its stream, in order     (packets_routed)
-/

namespace VideoPlayerCore

open Machine

variable {F G : Type}

/-- `codecpar->codec_type` -/
inductive MediaType
  | video
  | audio
  | other
  deriving DecidableEq

structure StreamIndexes where
  videoStreamIndex : Int := -1
  audioStreamIndex : Int := -1
  deriving DecidableEq

/-- The loop over `_formatContext->streams`, from stream `i` on. -/
def selectStreams : List MediaType → Nat → StreamIndexes → StreamIndexes
  | [], _, x => x
  | type :: rest, i, x =>
    if type = .video ∧ x.videoStreamIndex = -1 then
      selectStreams rest (i + 1) { x with videoStreamIndex := i }
    else if type = .audio ∧ x.audioStreamIndex = -1 then
      selectStreams rest (i + 1) { x with audioStreamIndex := i }
    else selectStreams rest (i + 1) x

/-- `packet->stream_index` against the streams that are open. -/
def StreamIndexes.label (x : StreamIndexes) (streamIndex : Nat) : PacketStream :=
  if (streamIndex : Int) = x.videoStreamIndex then .video
  else if (streamIndex : Int) = x.audioStreamIndex then .audio
  else .other

/-- A packet that `av_read_frame` gave. -/
structure ReadPacket where
  number : Nat
  streamIndex : Nat
  deriving DecidableEq

/-- The packet on its way to a decoder. -/
def ReadPc.forVideo : ReadPc → List Nat
  | .toVideo packet => [packet]
  | _ => []

def ReadPc.forAudio : ReadPc → List Nat
  | .toAudio packet => [packet]
  | _ => []

structure FileWorld (V : Codec Nat F) (A : Codec Nat G) where
  /-- of the streams of the file -/
  types : List MediaType
  indexes : StreamIndexes := {}
  /-- the streams are selected -/
  selected : Bool := false
  read : ReadWorld V A := {}
  reads : List ReadPacket := []
  /-- the packets that were written to `_video` and to `_audio` -/
  toVideo : List Nat := []
  toAudio : List Nat := []

inductive FileAct
  /-- the file cannot be opened, or its streams not be found -/
  | openFails
  | select
  /-- what `_video.open` and, in `_audio.open`, the decoder and the device say, if called -/
  | openStreams (video audioDecoder audioDevice : Bool)
  | packet (streamIndex : Nat)
  /-- `av_read_frame` fails; is it the end of the file? -/
  | noPacket (eof : Bool)
  /-- the reader's next call -/
  | go
  /-- what has nothing to do with streams -/
  | sleep
  | rewind
  | video
  | audio
  | stop
  deriving DecidableEq

/-! ## The selection -/

/-- The first stream of a type, counted from `i`. -/
def firstFrom (types : List MediaType) (type : MediaType) (i : Nat) : Int :=
  (types.findIdx? (· = type)).elim (-1) fun k => ((i + k : Nat) : Int)

theorem firstFrom_cons_self (types : List MediaType) (type : MediaType) (i : Nat) :
    firstFrom (type :: types) type i = i := by
  unfold firstFrom
  rw [List.findIdx?_cons, if_pos (decide_eq_true rfl)]
  rfl

theorem firstFrom_cons_ne {a type : MediaType} (types : List MediaType) (h : a ≠ type) (i : Nat) :
    firstFrom (a :: types) type i = firstFrom types type (i + 1) := by
  unfold firstFrom
  rw [List.findIdx?_cons, if_neg (by simpa using h)]
  cases types.findIdx? (· = type) with
  | none => rfl
  | some k =>
    simp only [Option.map_some, Option.elim_some]
    omega

/-- A stream that was found stays, one that was not is the first from `i` on. -/
theorem selectStreams_from (types : List MediaType) (i : Nat) (x : StreamIndexes) :
    selectStreams types i x =
      { videoStreamIndex :=
          if x.videoStreamIndex = -1 then firstFrom types .video i else x.videoStreamIndex
        audioStreamIndex :=
          if x.audioStreamIndex = -1 then firstFrom types .audio i else x.audioStreamIndex } := by
  induction types generalizing i x with
  | nil =>
    obtain ⟨v, a⟩ := x
    simp only [selectStreams, StreamIndexes.mk.injEq]
    constructor
    · split
      · next hv => exact hv
      · rfl
    · split
      · next ha => exact ha
      · rfl
  | cons type rest ih =>
    have hfound (j : Nat) : ((j : Nat) : Int) ≠ -1 := by omega
    unfold selectStreams
    split
    · next hvideo =>
      obtain ⟨rfl, hv⟩ := hvideo
      rw [ih, hv, if_pos rfl, firstFrom_cons_self, firstFrom_cons_ne rest (by decide) i,
        if_neg (hfound i)]
    · next hvideo =>
      split
      · next haudio =>
        obtain ⟨rfl, ha⟩ := haudio
        rw [ih, ha, if_pos rfl, firstFrom_cons_self, firstFrom_cons_ne rest (by decide) i,
          if_neg (hfound i)]
      · next haudio =>
        rw [ih]
        congr 1
        · split
          · next hv =>
            exact (firstFrom_cons_ne rest (fun htype => hvideo ⟨htype, hv⟩) i).symm
          · rfl
        · split
          · next ha =>
            exact (firstFrom_cons_ne rest (fun htype => haudio ⟨htype, ha⟩) i).symm
          · rfl

theorem selectStreams_eq (types : List MediaType) :
    selectStreams types 0 {} =
      { videoStreamIndex := firstFrom types .video 0
        audioStreamIndex := firstFrom types .audio 0 } := by
  rw [selectStreams_from]
  rfl

/-- A stream has one type. -/
theorem firstFrom_ne (types : List MediaType) {a b : MediaType} (hab : a ≠ b) {i : Nat}
    (ha : firstFrom types a 0 = i) : firstFrom types b 0 ≠ i := by
  intro hb
  unfold firstFrom at ha hb
  cases hfa : types.findIdx? (· = a) with
  | none =>
    rw [hfa] at ha
    simp only [Option.elim_none] at ha
    omega
  | some k =>
    cases hfb : types.findIdx? (· = b) with
    | none =>
      rw [hfb] at hb
      simp only [Option.elim_none] at hb
      omega
    | some l =>
      rw [hfa] at ha
      rw [hfb] at hb
      simp only [Option.elim_some] at ha hb
      obtain rfl : k = l := by omega
      obtain ⟨hk, hka, -⟩ := List.findIdx?_eq_some_iff_getElem.mp hfa
      obtain ⟨_, hkb, -⟩ := List.findIdx?_eq_some_iff_getElem.mp hfb
      exact hab ((of_decide_eq_true hka).symm.trans (of_decide_eq_true hkb))

namespace FileWorld

variable {V : Codec Nat F} {A : Codec Nat G}

/-- The rest of `_readThread` goes on. -/
def follow (s : FileWorld V A) (a : ReadAct) : Option (FileWorld V A) :=
  (s.read.step a).map fun read => { s with read := read }

/-- `_video.open` and `_audio.open`, and the indices behind them. -/
def openStreams (s : FileWorld V A) (video audioDecoder audioDevice : Bool) :
    Option (FileWorld V A) :=
  let x := s.indexes
  let video := x.videoStreamIndex ≠ -1 && video
  let audioDecoder := x.audioStreamIndex ≠ -1 && audioDecoder
  let s := { s with
    indexes :=
      { videoStreamIndex := if video then x.videoStreamIndex else -1
        audioStreamIndex := if audioDecoder && audioDevice then x.audioStreamIndex else -1 } }
  s.follow (.openStreams video audioDecoder audioDevice)

/-- Behind `av_read_frame`: `packet->stream_index` is looked at. -/
def afterRead (s : FileWorld V A) (streamIndex : Nat) : Option (FileWorld V A) :=
  match s.read.pc with
  | .reading packet =>
    let pc : ReadPc :=
      if (streamIndex : Int) = s.indexes.videoStreamIndex then .toVideo packet
      else if (streamIndex : Int) = s.indexes.audioStreamIndex then .toAudio packet
      else .freeing packet
    some { s with
      read := { s.read with pc := pc, ledger := s.read.ledger ++ [.use packet] }
      reads := s.reads ++ [{ number := packet, streamIndex := streamIndex }] }
  | _ => none

def step (s : FileWorld V A) : FileAct → Option (FileWorld V A)
  | .openFails => if s.selected then none else s.follow .openFails
  | .select =>
    match s.read.pc, s.selected with
    | .opening, false =>
      let x := selectStreams s.types 0 {}
      let s := { s with indexes := x, selected := true }
      if x.videoStreamIndex = -1 ∧ x.audioStreamIndex = -1 then s.follow .openFails else some s
    | _, _ => none
  | .openStreams video audioDecoder audioDevice =>
    if s.selected then s.openStreams video audioDecoder audioDevice else none
  | .packet streamIndex => s.afterRead streamIndex
  | .noPacket eof => s.follow (.read (if eof then .eof else .error))
  | .go =>
    (s.follow .go).map fun t =>
      { t with
        toVideo := t.toVideo ++ s.read.pc.forVideo, toAudio := t.toAudio ++ s.read.pc.forAudio }
  | .sleep => s.follow .sleep
  | .rewind => s.follow .rewind
  | .video => s.follow .video
  | .audio => s.follow .audio
  | .stop => s.follow .stop

/-! ## The step is one of ReadWorld -/

variable {s t : FileWorld V A} {a : FileAct}

/-- The packets of a stream, in the order in which they were read. -/
def ofStream (s : FileWorld V A) (streamIndex : Int) : List Nat :=
  (s.reads.filter fun r => (r.streamIndex : Int) = streamIndex).map ReadPacket.number

/-- Before the streams are open nothing is read; behind that the indices are those of the first
streams, or -1 where a stream is not open. -/
structure Indexed (s : FileWorld V A) : Prop where
  before : s.read.pc = .opening → s.reads = [] ∧ s.read.hasVideo = false ∧ s.read.hasAudio = false ∧
    s.indexes = if s.selected then selectStreams s.types 0 {} else {}
  behind : s.read.pc ≠ .opening →
    (s.indexes.videoStreamIndex = if s.read.hasVideo then firstFrom s.types .video 0 else -1) ∧
      (s.indexes.audioStreamIndex = if s.read.hasAudio then firstFrom s.types .audio 0 else -1)

/-- What was read of the open streams was written, or is on its way. -/
structure Routed (s : FileWorld V A) : Prop where
  video : s.toVideo ++ s.read.pc.forVideo = s.ofStream s.indexes.videoStreamIndex
  audio : s.toAudio ++ s.read.pc.forAudio = s.ofStream s.indexes.audioStreamIndex

theorem indexed_start (types : List MediaType) :
    Indexed ({ types := types } : FileWorld V A) :=
  ⟨fun _ => ⟨rfl, rfl, rfl, rfl⟩, fun h => absurd rfl h⟩

theorem routed_start (types : List MediaType) : Routed ({ types := types } : FileWorld V A) :=
  ⟨rfl, rfl⟩

/-! ## The steps of the reader -/

/-- No packet comes or goes. -/
structure Aside (s t : ReadWorld V A) : Prop where
  hasVideo : t.hasVideo = s.hasVideo
  hasAudio : t.hasAudio = s.hasAudio
  opening : t.pc = .opening ↔ s.pc = .opening
  forVideo : t.pc.forVideo = s.pc.forVideo
  forAudio : t.pc.forAudio = s.pc.forAudio

theorem aside_of_step {u v : ReadWorld V A} {b : ReadAct}
    (hb : b ∈ [ReadAct.read .eof, .read .error, .sleep, .rewind, .video, .audio, .stop])
    (hs : u.step b = some v) : Aside u v := by
  have hread {result : PacketRead} (hresult : result = .eof ∨ result = .error)
      (hs : u.step (.read result) = some v) : Aside u v := by
    simp only [ReadWorld.step] at hs
    split at hs
    · next packet hpc =>
      obtain rfl := Option.some.inj hs
      rcases hresult with rfl | rfl <;>
        exact ⟨rfl, rfl, by simp [ReadWorld.afterRead, hpc], by rw [hpc]; rfl, by rw [hpc]; rfl⟩
    · cases hs
  simp only [List.mem_cons, List.not_mem_nil, or_false] at hb
  rcases hb with rfl | rfl | rfl | rfl | rfl | rfl | rfl
  · exact hread (.inl rfl) hs
  · exact hread (.inr rfl) hs
  · simp only [ReadWorld.step] at hs
    split at hs
    · next hpc =>
      obtain rfl := Option.some.inj hs
      exact ⟨rfl, rfl, by simp [hpc], by rw [hpc]; rfl, by rw [hpc]; rfl⟩
    · cases hs
  · simp only [ReadWorld.step] at hs
    split at hs
    · next hpc =>
      obtain ⟨-, hs⟩ := Option.ite_none_right_eq_some.mp hs
      obtain rfl := Option.some.inj hs
      exact ⟨rfl, rfl, by simp [hpc], by rw [hpc]; rfl, by rw [hpc]; rfl⟩
    · cases hs
  · obtain ⟨⟨d, events⟩, -, hs⟩ := Option.bind_eq_some_iff.mp hs
    obtain rfl := Option.some.inj hs
    exact ⟨rfl, rfl, Iff.rfl, rfl, rfl⟩
  · obtain ⟨⟨d, events⟩, -, hs⟩ := Option.bind_eq_some_iff.mp hs
    obtain rfl := Option.some.inj hs
    exact ⟨rfl, rfl, Iff.rfl, rfl, rfl⟩
  · obtain rfl := Option.some.inj hs
    exact ⟨rfl, rfl, Iff.rfl, rfl, rfl⟩

/-- Behind the reader's next call nothing is on its way. -/
theorem go_spec {u v : ReadWorld V A} (hs : u.go = some v) :
    v.hasVideo = u.hasVideo ∧ v.hasAudio = u.hasAudio ∧ u.pc ≠ .opening ∧ v.pc ≠ .opening ∧
      v.pc.forVideo = [] ∧ v.pc.forAudio = [] := by
  unfold ReadWorld.go at hs
  split at hs
  · next hpc =>
    obtain rfl := Option.some.inj hs
    dsimp only
    split <;> exact ⟨rfl, rfl, by simp [hpc], by simp, rfl, rfl⟩
  · next hpc =>
    split at hs
    · obtain rfl := Option.some.inj hs
      exact ⟨rfl, rfl, by simp [hpc], by simp, rfl, rfl⟩
    · obtain rfl := Option.some.inj hs
      exact ⟨rfl, rfl, by simp [hpc], by simp, rfl, rfl⟩
  · next packet hpc =>
    obtain ⟨d, -, hs⟩ := Option.bind_eq_some_iff.mp hs
    obtain rfl := Option.some.inj hs
    exact ⟨rfl, rfl, by simp [hpc], by simp, rfl, rfl⟩
  · next packet hpc =>
    obtain ⟨d, -, hs⟩ := Option.bind_eq_some_iff.mp hs
    obtain rfl := Option.some.inj hs
    exact ⟨rfl, rfl, by simp [hpc], by simp, rfl, rfl⟩
  · next packet hpc =>
    obtain rfl := Option.some.inj hs
    exact ⟨rfl, rfl, by simp [hpc], by simp, rfl, rfl⟩
  · next packet hpc =>
    obtain rfl := Option.some.inj hs
    exact ⟨rfl, rfl, by simp [hpc], by simp, rfl, rfl⟩
  · next hpc =>
    obtain ⟨d, -, hs⟩ := Option.bind_eq_some_iff.mp hs
    obtain rfl := Option.some.inj hs
    exact ⟨rfl, rfl, by simp [hpc], by simp, rfl, rfl⟩
  · next hpc =>
    obtain ⟨d, -, hs⟩ := Option.bind_eq_some_iff.mp hs
    obtain rfl := Option.some.inj hs
    exact ⟨rfl, rfl, by simp [hpc], by simp, rfl, rfl⟩
  · next hpc =>
    obtain rfl := Option.some.inj hs
    exact ⟨rfl, rfl, by simp [hpc], by simp, rfl, rfl⟩
  · next hpc =>
    split at hs
    · obtain rfl := Option.some.inj hs
      exact ⟨rfl, rfl, by simp [hpc], by simp, rfl, rfl⟩
    · cases hs
  · next hpc =>
    split at hs
    · obtain rfl := Option.some.inj hs
      exact ⟨rfl, rfl, by simp [hpc], by simp [ReadWorld.free, hpc],
        by simp [ReadWorld.free, hpc, ReadPc.forVideo],
        by simp [ReadWorld.free, hpc, ReadPc.forAudio]⟩
    · obtain rfl := Option.some.inj hs
      exact ⟨rfl, rfl, by simp [hpc], by simp, rfl, rfl⟩
  · next hpc =>
    obtain rfl := Option.some.inj hs
    exact ⟨rfl, rfl, by simp [hpc], by simp, rfl, rfl⟩
  · next hpc =>
    split at hs
    · obtain rfl := Option.some.inj hs
      exact ⟨rfl, rfl, by simp [hpc], by simp, rfl, rfl⟩
    · cases hs
  · next hpc =>
    split at hs
    · obtain rfl := Option.some.inj hs
      exact ⟨rfl, rfl, by simp [hpc], by simp [ReadWorld.free, hpc],
        by simp [ReadWorld.free, hpc, ReadPc.forVideo],
        by simp [ReadWorld.free, hpc, ReadPc.forAudio]⟩
    · obtain rfl := Option.some.inj hs
      exact ⟨rfl, rfl, by simp [hpc], by simp, rfl, rfl⟩
  · cases hs

/-! ## A run of the file is a run of ReadWorld -/

/-- A step of the reader that has nothing to do with streams. -/
theorem follow_aside {b : ReadAct}
    (hb : b ∈ [ReadAct.read .eof, .read .error, .sleep, .rewind, .video, .audio, .stop])
    (hs : s.follow b = some t) (hindexed : Indexed s) (hrouted : Routed s) :
    s.read.step b = some t.read ∧ Indexed t ∧ Routed t ∧ t.types = s.types := by
  obtain ⟨read, hread, rfl⟩ := Option.map_eq_some_iff.mp hs
  obtain ⟨hvideo, haudio, hopening, hforVideo, hforAudio⟩ := aside_of_step hb hread
  refine ⟨hread, ⟨fun hpc => ?_, fun hpc => ?_⟩, ⟨?_, ?_⟩, rfl⟩
  · dsimp only at hpc ⊢
    rw [hvideo, haudio]
    exact hindexed.before (hopening.mp hpc)
  · dsimp only at hpc ⊢
    rw [hvideo, haudio]
    exact hindexed.behind (mt hopening.mpr hpc)
  · dsimp only
    rw [hforVideo]
    exact hrouted.video
  · dsimp only
    rw [hforAudio]
    exact hrouted.audio

/-- The streams are not there, or cannot be opened. -/
theorem openFails_spec (hs : s.follow .openFails = some t) (hindexed : Indexed s)
    (hnone : s.indexes = {}) (hrouted : Routed s) :
    s.read.step .openFails = some t.read ∧ Indexed t ∧ Routed t ∧ t.types = s.types := by
  obtain ⟨read, hread, rfl⟩ := Option.map_eq_some_iff.mp hs
  have hstep := hread
  simp only [ReadWorld.step] at hread
  split at hread
  · next hpc =>
    obtain rfl := Option.some.inj hread
    obtain ⟨hreads, hvideo, haudio, -⟩ := hindexed.before hpc
    refine ⟨hstep, ⟨fun hopening => ?_, fun _ => ?_⟩, ⟨?_, ?_⟩, rfl⟩
    · cases hopening
    · dsimp only
      rw [hvideo, haudio, hnone]
      exact ⟨rfl, rfl⟩
    · have hold := hrouted.video
      rw [hpc] at hold
      exact hold
    · have hold := hrouted.audio
      rw [hpc] at hold
      exact hold
  · cases hread

theorem openStreams_spec {video audioDecoder audioDevice : Bool} (hselected : s.selected = true)
    (hs : s.openStreams video audioDecoder audioDevice = some t) (hindexed : Indexed s)
    (hrouted : Routed s) :
    (∃ b, s.read.step b = some t.read) ∧ Indexed t ∧ Routed t ∧ t.types = s.types := by
  obtain ⟨read, hread, rfl⟩ := Option.map_eq_some_iff.mp hs
  have hstep := hread
  simp only [ReadWorld.step] at hread
  split at hread
  · next hpc =>
    obtain rfl := Option.some.inj hread
    obtain ⟨hreads, -, -, hx⟩ := hindexed.before hpc
    rw [hselected, if_pos rfl, selectStreams_eq] at hx
    have hwrites := hrouted.video
    have hwrites' := hrouted.audio
    unfold ofStream at hwrites hwrites'
    rw [hpc, hreads] at hwrites hwrites'
    refine ⟨⟨_, hstep⟩, ⟨fun hopening => ?_, fun _ => ⟨?_, ?_⟩⟩, ⟨?_, ?_⟩, rfl⟩
    · cases hopening
    · dsimp only
      rw [hx]
    · dsimp only
      rw [hx]
    · unfold ofStream
      dsimp only
      rw [hreads]
      exact hwrites
    · unfold ofStream
      dsimp only
      rw [hreads]
      exact hwrites'
  · cases hread

/-- One more packet was read. -/
theorem ofStream_concat (reads : List ReadPacket) (r : ReadPacket) (streamIndex : Int) :
    ((reads ++ [r]).filter fun r => (r.streamIndex : Int) = streamIndex).map ReadPacket.number =
      (reads.filter fun r => (r.streamIndex : Int) = streamIndex).map ReadPacket.number ++
        if (r.streamIndex : Int) = streamIndex then [r.number] else [] := by
  rw [List.filter_append, List.map_append]
  congr 1
  by_cases hr : (r.streamIndex : Int) = streamIndex
  · rw [if_pos hr, List.filter_cons_of_pos (by simpa using hr)]
    rfl
  · rw [if_neg hr, List.filter_cons_of_neg (by simpa using hr)]
    rfl

/-- An index that a packet has is that of a stream that is open. -/
theorem open_of_index {streamIndex : Nat} {isOpen : Bool} {x first : Int}
    (hx : x = if isOpen then first else -1) (hindex : (streamIndex : Int) = x) :
    isOpen = true ∧ first = streamIndex := by
  cases isOpen with
  | true => exact ⟨rfl, hx.symm.trans hindex.symm⟩
  | false =>
    rw [hx] at hindex
    exact absurd hindex (by simp)

theorem afterRead_spec {streamIndex : Nat} (hs : s.afterRead streamIndex = some t)
    (hindexed : Indexed s) (hrouted : Routed s) :
    s.read.step (.read (.packet (s.indexes.label streamIndex))) = some t.read ∧ Indexed t ∧
      Routed t ∧ t.types = s.types := by
  unfold afterRead at hs
  split at hs
  · next packet hpc =>
    obtain rfl := Option.some.inj hs
    obtain ⟨hvideoIndex, haudioIndex⟩ := hindexed.behind (by simp [hpc])
    obtain ⟨hvideo, haudio⟩ := hrouted
    unfold ofStream at hvideo haudio
    simp only [hpc, ReadPc.forVideo, ReadPc.forAudio, List.append_nil] at hvideo haudio
    have hindexed' {pc : ReadPc} {ledger} {reads} (hopening : pc ≠ .opening) : Indexed { s with
        read := { s.read with pc := pc, ledger := ledger }, reads := reads } :=
      ⟨fun h => absurd h hopening, fun _ => ⟨hvideoIndex, haudioIndex⟩⟩
    simp only [ReadWorld.step, hpc, StreamIndexes.label]
    by_cases hv : (streamIndex : Int) = s.indexes.videoStreamIndex
    · obtain ⟨hopen, hfirst⟩ := open_of_index hvideoIndex hv
      have ha : (streamIndex : Int) ≠ s.indexes.audioStreamIndex := fun ha =>
        firstFrom_ne s.types (by decide) hfirst (open_of_index haudioIndex ha).2
      rw [if_pos hv, if_pos hv]
      refine ⟨?_, hindexed' (by simp), ⟨?_, ?_⟩, trivial⟩
      · simp [ReadWorld.afterRead, hopen]
      · unfold ofStream
        dsimp only
        rw [ofStream_concat, if_pos hv, hvideo]
        rfl
      · unfold ofStream
        dsimp only
        rw [ofStream_concat, if_neg ha, ← haudio]
        rfl
    · rw [if_neg hv, if_neg hv]
      by_cases ha : (streamIndex : Int) = s.indexes.audioStreamIndex
      · obtain ⟨hopen, -⟩ := open_of_index haudioIndex ha
        rw [if_pos ha, if_pos ha]
        refine ⟨?_, hindexed' (by simp), ⟨?_, ?_⟩, trivial⟩
        · simp [ReadWorld.afterRead, hopen]
        · unfold ofStream
          dsimp only
          rw [ofStream_concat, if_neg hv, ← hvideo]
          rfl
        · unfold ofStream
          dsimp only
          rw [ofStream_concat, if_pos ha, haudio]
          rfl
      · rw [if_neg ha, if_neg ha]
        refine ⟨?_, hindexed' (by simp), ⟨?_, ?_⟩, trivial⟩
        · simp [ReadWorld.afterRead]
        · unfold ofStream
          dsimp only
          rw [ofStream_concat, if_neg hv, ← hvideo]
          rfl
        · unfold ofStream
          dsimp only
          rw [ofStream_concat, if_neg ha, ← haudio]
          rfl
  · cases hs

theorem go_follow (hs : s.step .go = some t) (hindexed : Indexed s) (hrouted : Routed s) :
    s.read.step .go = some t.read ∧ Indexed t ∧ Routed t ∧ t.types = s.types := by
  obtain ⟨u, hu, rfl⟩ := Option.map_eq_some_iff.mp hs
  obtain ⟨read, hread, rfl⟩ := Option.map_eq_some_iff.mp hu
  obtain ⟨hvideo, haudio, hold, hnew, hforVideo, hforAudio⟩ := go_spec hread
  obtain ⟨hvideoIndex, haudioIndex⟩ := hindexed.behind hold
  obtain ⟨hvideoWrites, haudioWrites⟩ := hrouted
  refine ⟨hread, ⟨fun h => absurd h hnew, fun _ => ?_⟩, ⟨?_, ?_⟩, rfl⟩
  · dsimp only
    rw [hvideo, haudio]
    exact ⟨hvideoIndex, haudioIndex⟩
  · dsimp only
    rw [hforVideo, List.append_nil]
    exact hvideoWrites
  · dsimp only
    rw [hforAudio, List.append_nil]
    exact haudioWrites

theorem step_refines_read (hs : s.step a = some t) (hindexed : Indexed s) (hrouted : Routed s) :
    (t.read = s.read ∨ ∃ b, s.read.step b = some t.read) ∧ Indexed t ∧ Routed t ∧
      t.types = s.types := by
  have haside {b : ReadAct}
      (hb : b ∈ [ReadAct.read .eof, .read .error, .sleep, .rewind, .video, .audio, .stop])
      (hs : s.follow b = some t) :
      (t.read = s.read ∨ ∃ b, s.read.step b = some t.read) ∧ Indexed t ∧ Routed t ∧
        t.types = s.types := by
    obtain ⟨hread, hrest⟩ := follow_aside hb hs hindexed hrouted
    exact ⟨.inr ⟨b, hread⟩, hrest⟩
  cases a with
  | openFails =>
    obtain ⟨hselected, hs⟩ := Option.ite_none_left_eq_some.mp hs
    obtain ⟨read, hread, -⟩ := Option.map_eq_some_iff.mp hs
    have hpc : s.read.pc = .opening := by
      simp only [ReadWorld.step] at hread
      split at hread
      · next hpc => exact hpc
      · cases hread
    have hx := (hindexed.before hpc).2.2.2
    rw [if_neg hselected] at hx
    obtain ⟨hread, hrest⟩ := openFails_spec hs hindexed hx hrouted
    exact ⟨.inr ⟨_, hread⟩, hrest⟩
  | select =>
    simp only [step] at hs
    split at hs
    · next hpc hselected =>
      obtain ⟨hreads, hvideo, haudio, -⟩ := hindexed.before hpc
      have hwrites := hrouted.video
      have hwrites' := hrouted.audio
      unfold ofStream at hwrites hwrites'
      rw [hpc, hreads] at hwrites hwrites'
      have hindexed' : Indexed { s with
          indexes := selectStreams s.types 0 {}, selected := true } :=
        ⟨fun _ => ⟨hreads, hvideo, haudio, rfl⟩, fun h => absurd hpc h⟩
      have hrouted' : Routed { s with
          indexes := selectStreams s.types 0 {}, selected := true } := by
        refine ⟨?_, ?_⟩
        · unfold ofStream
          dsimp only
          rw [hpc, hreads]
          exact hwrites
        · unfold ofStream
          dsimp only
          rw [hpc, hreads]
          exact hwrites'
      split at hs
      · next hnone =>
        have hx : selectStreams s.types 0 {} = {} := by
          cases hselect : selectStreams s.types 0 {} with
          | mk v a =>
            rw [hselect] at hnone
            obtain ⟨rfl, rfl⟩ := hnone
            rfl
        obtain ⟨hread, hrest⟩ := openFails_spec hs hindexed' hx hrouted'
        exact ⟨.inr ⟨_, hread⟩, hrest⟩
      · obtain rfl := Option.some.inj hs
        exact ⟨.inl rfl, hindexed', hrouted', rfl⟩
    · cases hs
  | openStreams video audioDecoder audioDevice =>
    obtain ⟨hselected, hs⟩ := Option.ite_none_right_eq_some.mp hs
    obtain ⟨hread, hrest⟩ := openStreams_spec hselected hs hindexed hrouted
    exact ⟨.inr hread, hrest⟩
  | packet streamIndex =>
    obtain ⟨hread, hrest⟩ := afterRead_spec hs hindexed hrouted
    exact ⟨.inr ⟨_, hread⟩, hrest⟩
  | noPacket eof =>
    cases eof with
    | true => exact haside (by simp) hs
    | false => exact haside (by simp) hs
  | go =>
    obtain ⟨hread, hrest⟩ := go_follow hs hindexed hrouted
    exact ⟨.inr ⟨_, hread⟩, hrest⟩
  | sleep | rewind | video | audio | stop => exact haside (by simp) hs

/-- No packet has the index of a stream that is not open. -/
theorem ofStream_closed (s : FileWorld V A) : s.ofStream (-1) = [] := by
  unfold ofStream
  rw [List.filter_eq_nil_iff.mpr fun r _ => by simp]
  rfl

theorem routed_of_reach {types : List MediaType}
    (h : Reach step ({ types := types } : FileWorld V A) s) :
    Reach ReadWorld.step {} s.read ∧ Indexed s ∧ Routed s ∧ s.types = types := by
  refine h.invariant
    (I := fun s => Reach ReadWorld.step {} s.read ∧ Indexed s ∧ Routed s ∧ s.types = types)
    ⟨.refl, indexed_start types, routed_start types, rfl⟩ fun u a v hI hs => ?_
  obtain ⟨hreach, hindexed, hrouted, htypes⟩ := hI
  obtain ⟨hread, hindexed', hrouted', htypes'⟩ := step_refines_read hs hindexed hrouted
  refine ⟨?_, hindexed', hrouted', htypes'.trans htypes⟩
  rcases hread with hsame | ⟨b, hb⟩
  · rw [hsame]
    exact hreach
  · exact hreach.tail trivial hb

end FileWorld

open FileWorld

/-- Behind the opening, the packets written to a decoder, and the one on its way to it, are those
read from the first stream of its type, in the order of the file, if that stream is open; and
what the reader does is a run of `ReadWorld`. -/
theorem packets_routed {V : Codec Nat F} {A : Codec Nat G} (types : List MediaType)
    {s : FileWorld V A} (h : Reach step { types := types } s) :
    Reach ReadWorld.step {} s.read ∧
      (s.read.pc ≠ .opening →
        s.toVideo ++ s.read.pc.forVideo =
          (if s.read.hasVideo then s.ofStream (firstFrom types .video 0) else []) ∧
        s.toAudio ++ s.read.pc.forAudio =
          (if s.read.hasAudio then s.ofStream (firstFrom types .audio 0) else [])) := by
  obtain ⟨hreach, hindexed, hrouted, htypes⟩ := routed_of_reach h
  refine ⟨hreach, fun hpc => ?_⟩
  obtain ⟨hvideo, haudio⟩ := hindexed.behind hpc
  have hstream (isOpen : Bool) (first : Int) :
      s.ofStream (if isOpen then first else -1) = if isOpen then s.ofStream first else [] := by
    cases isOpen with
    | true => rfl
    | false => exact s.ofStream_closed
  rw [hrouted.video, hrouted.audio, hvideo, haudio, htypes, hstream, hstream]
  exact ⟨rfl, rfl⟩

/-- The video stream cannot be opened and the second audio stream is left alone: of the four
packets only the two of the first audio stream are written. -/
theorem packets_routed_first_audio :
    ∃ s : FileWorld lateCodec lateCodec, s.reads.length = 4 ∧ s.toVideo = [] ∧
      s.toAudio = [1, 3] ∧ s.ofStream 1 = [1, 3] := by
  obtain ⟨s, hreach, hend⟩ := reach_of_any step
    ({ types := [.video, .audio, .audio] } : FileWorld lateCodec lateCodec)
    [.select, .openStreams false true true, .go, .go, .packet 0, .go, .go, .go, .packet 1, .go,
      .go, .go, .packet 2, .go, .go, .go, .packet 1, .go]
    (fun s => decide (s.reads.length = 4 ∧ s.toVideo = [] ∧ s.toAudio = [1, 3] ∧
      s.read.pc = .top ∧ s.read.hasAudio = true))
    (by decide +kernel)
  obtain ⟨hreads, hvideo, haudio, hpc, hopen⟩ := of_decide_eq_true hend
  obtain ⟨-, hrouted⟩ := packets_routed [.video, .audio, .audio] hreach
  obtain ⟨-, hwrites⟩ := hrouted (by simp [hpc])
  rw [hpc, hopen, haudio, if_pos rfl] at hwrites
  exact ⟨s, hreads, hvideo, haudio, hwrites.symm⟩

end VideoPlayerCore
