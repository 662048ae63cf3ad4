import VideoPlayerCore.PlayObjects

/-!
# What a player points to is alive

`_readThread` joins the threads of both sides before it closes its input and returns, so the
raw pointers of the display threads, those into its own locals among them, are good as long as
they are followed.  A `ClockSync` lives on in the channels that the callback still has.

    s.held, the pointers of what runs, and what the reader has behind it     (PlayObjects.Keeps)
    `avformat_alloc_context` succeeds →
      no null pointer, no use after free; all closed when `Play::stop` returns
                                                                     (player_objects_alive)
-/

namespace VideoPlayerCore

open Machine Ledgers

namespace SideObjects

/-- What runs has what it points to. -/
structure Tied (side : SideObjects) (formatContext locals : Option Nat) : Prop where
  codecContext : side.coroutine = true → side.codecContext.isSome = true
  stream : side.display = true → side.stream = formatContext ∧ formatContext.isSome = true
  onEof : side.display = true → side.onEof = locals ∧ locals.isSome = true

def Quiet (side : SideObjects) : Prop :=
  side.coroutine = false ∧ side.codecContext = none ∧ side.display = false

/-- What `close` has behind it. -/
def Behind (side : SideObjects) : SideClosePc → Prop
  | .stopping | .joiningDecoder => True
  | .freeing => side.coroutine = false
  | .halting | .joiningDisplay => side.coroutine = false ∧ side.codecContext = none

variable {side : SideObjects} {formatContext locals : Option Nat}

/-- A side without threads points to nothing. -/
theorem Quiet.tied (h : side.Quiet) : side.Tied formatContext locals := by
  obtain ⟨hcoroutine, -, hdisplay⟩ := h
  refine ⟨fun hrun => ?_, fun hrun => ?_, fun hrun => ?_⟩
  · rw [hcoroutine] at hrun
    cases hrun
  · rw [hdisplay] at hrun
    cases hrun
  · rw [hdisplay] at hrun
    cases hrun

/-- A thread that leaves. -/
theorem Tied.leaves {coroutine display : Bool} (h : side.Tied formatContext locals)
    (hcoroutine : coroutine = true → side.coroutine = true)
    (hdisplay : display = true → side.display = true) :
    Tied { side with coroutine := coroutine, display := display } formatContext locals :=
  ⟨fun hrun => h.codecContext (hcoroutine hrun), fun hrun => h.stream (hdisplay hrun),
    fun hrun => h.onEof (hdisplay hrun)⟩

theorem Quiet.leaves {coroutine display : Bool} (h : side.Quiet)
    (hcoroutine : coroutine = true → side.coroutine = true)
    (hdisplay : display = true → side.display = true) :
    Quiet { side with coroutine := coroutine, display := display } := by
  obtain ⟨hc, hcodec, hd⟩ := h
  refine ⟨?_, hcodec, ?_⟩
  · exact Bool.eq_false_iff.mpr fun hrun => absurd (hcoroutine hrun) (by rw [hc]; decide)
  · exact Bool.eq_false_iff.mpr fun hrun => absurd (hdisplay hrun) (by rw [hd]; decide)

theorem Behind.leaves {coroutine display : Bool} {pc : SideClosePc} (h : side.Behind pc)
    (hcoroutine : coroutine = true → side.coroutine = true) :
    Behind { side with coroutine := coroutine, display := display } pc := by
  have hquiet (hc : side.coroutine = false) : coroutine = false :=
    Bool.eq_false_iff.mpr fun hrun => absurd (hcoroutine hrun) (by rw [hc]; decide)
  cases pc with
  | stopping | joiningDecoder => trivial
  | freeing => exact hquiet h
  | halting | joiningDisplay => exact ⟨hquiet h.1, h.2⟩

end SideObjects

namespace PlayObjects

variable {s t u : PlayObjects} {p c : Option Nat} {pc : PlayPc}

/-- What the format context, the reader and the decoders own. -/
def owned (s : PlayObjects) : List Nat :=
  s.formatContext.toList ++ (s.locals.toList ++
    (s.video.codecContext.toList ++ s.audio.codecContext.toList))

/-- The books are those of the pointers. -/
structure Held (s : PlayObjects) : Prop where
  contexts : s.contexts.Owns s.owned
  channels : s.channels.Shares s.channelRefs
  clocks : s.clocks.Shares s.clockRefs
  clocked : ∀ c ∈ s.channelRefs, (s.clockOf c).isSome = true

/-- Neither side runs or has anything. -/
def Idle (s : PlayObjects) : Prop := s.video.Quiet ∧ s.audio.Quiet ∧ s.channel = none

/-- The locals are there, and their `ClockSync`. -/
def InThread (s : PlayObjects) : Prop := s.locals.isSome = true ∧ s.synchronize.isSome = true

def Stage (s : PlayObjects) : PlayPc → Prop
  | .returned | .starting => s.Idle ∧ s.formatContext = none ∧ s.locals = none
  | .allocating => s.Idle ∧ s.formatContext = none ∧ s.InThread
  | .openingInput | .findingStreams | .openingVideo _ _ =>
    s.Idle ∧ s.formatContext.isSome = true ∧ s.InThread
  | .openingAudio _ =>
    (s.audio.Quiet ∧ s.channel = none) ∧ s.formatContext.isSome = true ∧ s.InThread
  | .looping => s.formatContext.isSome = true ∧ s.InThread
  | .closingVideo pc => s.video.Behind pc ∧ s.InThread
  | .closingAudio pc => s.video.Quiet ∧ s.audio.Behind pc ∧ s.InThread
  | .removingChannel => s.video.Quiet ∧ s.audio.Quiet ∧ s.InThread
  | .uncounting | .closingInput => s.Idle ∧ s.InThread
  | .returning => s.Idle ∧ s.formatContext = none ∧ s.InThread

structure Keeps (s : PlayObjects) : Prop where
  held : Held s
  video : s.video.Tied s.formatContext s.locals
  audio : s.audio.Tied s.formatContext s.locals
  /-- the raw pointer of the display thread -/
  sync : s.video.display = true → s.sync = s.synchronize ∧ s.synchronize.isSome = true
  channel : s.audio.display = true → s.channel.isSome = true ∧ s.synchronize.isSome = true
  stage : Stage s s.reader
  unharmed : s.crashed = false

theorem keeps_start : Keeps {} :=
  ⟨⟨Book.owns_start, Book.owns_start, Book.owns_start, fun _ hc => absurd hc List.not_mem_nil⟩,
    SideObjects.Quiet.tied ⟨rfl, rfl, rfl⟩, SideObjects.Quiet.tied ⟨rfl, rfl, rfl⟩,
    fun h => absurd h (by decide), fun h => absurd h (by decide),
    ⟨⟨⟨rfl, rfl, rfl⟩, ⟨rfl, rfl, rfl⟩, rfl⟩, rfl, rfl⟩, rfl⟩

/-! ## Using what is there -/

/-- `t` is `s` but for the books and what the callback has. -/
def Used (s t : PlayObjects) : Prop :=
  Held t ∧ ∃ contexts clocks channels audioChan message audioChannels,
    t = { s with
      contexts := contexts, clocks := clocks, channels := channels
      audioChan := audioChan, message := message, audioChannels := audioChannels }

theorem Used.trans (hst : Used s t) (htu : Held t → Used t u) : Used s u := by
  obtain ⟨hheld, _, _, _, _, _, _, rfl⟩ := hst
  obtain ⟨hheld', _, _, _, _, _, _, rfl⟩ := htu hheld
  exact ⟨hheld', _, _, _, _, _, _, rfl⟩

theorem Held.useContext (h : Held s) (hsome : p.isSome = true) (hin : p.toList ⊆ s.owned) :
    Used s (s.useContext p) := by
  obtain ⟨i, rfl⟩ := Option.isSome_iff_exists.mp hsome
  exact ⟨⟨h.contexts.use (hin (List.mem_singleton.mpr rfl)), h.channels, h.clocks, h.clocked⟩,
    _, _, _, _, _, _, rfl⟩

theorem Held.useClock (h : Held s) (hsome : p.isSome = true) (hin : p.toList ⊆ s.clockRefs) :
    Used s (s.useClock p) := by
  obtain ⟨i, rfl⟩ := Option.isSome_iff_exists.mp hsome
  exact ⟨⟨h.contexts, h.channels, h.clocks.use (hin (List.mem_singleton.mpr rfl)), h.clocked⟩,
    _, _, _, _, _, _, rfl⟩

/-- The clock of a channel that is referred to. -/
theorem clockOf_mem {c i : Nat} (hc : c ∈ s.channelRefs) (hi : s.clockOf c = some i) :
    i ∈ s.clockRefs :=
  List.mem_append_right _ (List.mem_filterMap.mpr ⟨c, hc, hi⟩)

theorem Held.useChannel (h : Held s) (hsome : c.isSome = true) (hin : c.toList ⊆ s.channelRefs) :
    Used s (s.useChannel c) := by
  obtain ⟨c, rfl⟩ := Option.isSome_iff_exists.mp hsome
  have hc : c ∈ s.channelRefs := hin (List.mem_singleton.mpr rfl)
  obtain ⟨i, hi⟩ := Option.isSome_iff_exists.mp (h.clocked c hc)
  unfold PlayObjects.useChannel
  dsimp only
  rw [hi]
  exact ⟨⟨h.contexts, h.channels.use hc, h.clocks.use (clockOf_mem hc hi), h.clocked⟩,
    _, _, _, _, _, _, rfl⟩

theorem Keeps.used (h : Keeps s) (hused : Used s t) : Keeps t := by
  obtain ⟨hheld, _, _, _, _, _, _, rfl⟩ := hused
  exact ⟨hheld, h.video, h.audio, h.sync, h.channel, h.stage, h.unharmed⟩

/-- The reader goes on. -/
theorem Keeps.goOn (h : Keeps s) (hused : Used s t) (hstage : Stage s pc) :
    Keeps { t with reader := pc } := by
  obtain ⟨hheld, _, _, _, _, _, _, rfl⟩ := hused
  exact ⟨⟨hheld.contexts, hheld.channels, hheld.clocks, hheld.clocked⟩, h.video, h.audio, h.sync,
    h.channel, hstage, h.unharmed⟩

theorem Held.unused (h : Held s) : Used s s := ⟨h, _, _, _, _, _, _, rfl⟩

theorem Held.useFormat (h : Held s) (hsome : s.formatContext.isSome = true) :
    Used s (s.useContext s.formatContext) :=
  h.useContext hsome (List.subset_append_left ..)

theorem Held.useLocals (h : Held s) (hsome : s.locals.isSome = true) :
    Used s (s.useContext s.locals) :=
  h.useContext hsome fun _ hi => List.mem_append_right _ (List.mem_append_left _ hi)

theorem Held.useSynchronize (h : Held s) (hsome : s.synchronize.isSome = true) :
    Used s (s.useClock s.synchronize) :=
  h.useClock hsome (List.subset_append_left ..)

/-! ## Letting go of a channel -/

theorem mem_channelRefs {d : Nat} : d ∈ s.channelRefs ↔ s.channel = some d ∨ s.message = some d ∨
    (∃ m ∈ s.audioChan, m.channel = d) ∨ d ∈ s.audioChannels := by
  unfold channelRefs
  simp

theorem dropChannel_eq (s : PlayObjects) (c : Option Nat) : ∃ clocks channels,
    s.dropChannel c = { s with clocks := clocks, channels := channels } := by
  cases c <;> exact ⟨_, _, rfl⟩

/-- One `shared_ptr` fewer, `c`. -/
theorem Held.dropChannel (h : Held s) (hcontexts : t.contexts = s.contexts)
    (hchannels : t.channels = s.channels) (hclocks : t.clocks = s.clocks)
    (howned : t.owned = s.owned) (hclockOf : t.clockOf = s.clockOf)
    (hsync : t.synchronize = s.synchronize)
    (hrefs : ∀ d, d ∈ s.channelRefs ↔ d ∈ c.toList ++ t.channelRefs) :
    Held (t.dropChannel c) := by
  have howns : t.contexts.Owns t.owned := by
    rw [hcontexts, howned]
    exact h.contexts
  have hchan : t.channels.Shares (c.toList ++ t.channelRefs) := by
    rw [hchannels]
    exact h.channels.congr hrefs
  have hclock : t.clocks.Shares ((c.bind t.clockOf).toList ++ t.clockRefs) := by
    rw [hclocks]
    refine h.clocks.congr fun i => ?_
    unfold clockRefs
    rw [hsync, hclockOf]
    simp only [List.mem_append, List.mem_filterMap, hrefs]
    cases c <;> simp [or_left_comm]
  have hclocked : ∀ d ∈ t.channelRefs, (t.clockOf d).isSome = true := fun d hd => by
    rw [hclockOf]
    exact h.clocked d ((hrefs d).mpr (List.mem_append_right _ hd))
  cases c with
  | none => exact ⟨howns, hchan, hclock, hclocked⟩
  | some c =>
    refine ⟨howns, hchan.release, ?_, hclocked⟩
    show Book.Shares (if c ∈ t.channelRefs then _ else _) t.clockRefs
    by_cases hc : c ∈ t.channelRefs
    · rw [if_pos hc]
      refine hclock.congr fun i => ?_
      rw [List.mem_append, or_iff_right_of_imp]
      intro hi
      exact clockOf_mem hc (Option.mem_toList.mp hi)
    · rw [if_neg hc]
      exact hclock.releaseOpt

/-- The callback's part of it. -/
theorem Held.drops (h : Held s) {audioChan : List ChannelMessage} {message : Option Nat}
    {audioChannels : List Nat}
    (hrefs : ∀ d, d ∈ s.channelRefs ↔ d ∈ c.toList ++ channelRefs { s with
      audioChan := audioChan, message := message, audioChannels := audioChannels }) :
    Used s ({ s with
      audioChan := audioChan, message := message,
      audioChannels := audioChannels }.dropChannel c) := by
  refine ⟨h.dropChannel rfl rfl rfl rfl rfl rfl hrefs, ?_⟩
  obtain ⟨clocks, channels, heq⟩ := dropChannel_eq { s with
    audioChan := audioChan, message := message, audioChannels := audioChannels } c
  rw [heq]
  exact ⟨_, _, _, _, _, _, rfl⟩

theorem Held.pop (h : Held s) (hs : s.pop = some t) : Used s t := by
  unfold PlayObjects.pop at hs
  split at hs
  · cases hs
  · next m rest hchan =>
    have hread : Used s ({ s with
        audioChan := rest, message := some m.channel }.dropChannel s.message) := by
      refine h.drops fun d => ?_
      unfold channelRefs
      rw [hchan]
      simp [or_left_comm]
    obtain ⟨clocks, channels, heq⟩ := dropChannel_eq
      { s with audioChan := rest, message := some m.channel } s.message
    dsimp only at hs
    rw [heq] at hs hread
    refine hread.trans fun hheld => ?_
    cases m with
    | addChannel c =>
      obtain rfl := Option.some.inj hs
      split
      · exact hheld.unused
      · refine hheld.drops (c := none) fun d => ?_
        -- `msg` has the channel already
        simp only [mem_channelRefs, Option.toList_none, List.nil_append, List.mem_cons]
        constructor
        · rintro (h | h | h | h)
          · exact .inl h
          · exact .inr (.inl h)
          · exact .inr (.inr (.inl h))
          · exact .inr (.inr (.inr (.inr h)))
        · rintro (h | h | h | rfl | h)
          · exact .inl h
          · exact .inr (.inl h)
          · exact .inr (.inr (.inl h))
          · exact .inr (.inl rfl)
          · exact .inr (.inr (.inr h))
    | removeChannel c =>
      obtain rfl := Option.some.inj hs
      split
      · next hc =>
        refine hheld.drops fun d => ?_
        simp only [mem_channelRefs, Option.toList_some, List.mem_append, List.mem_singleton]
        by_cases hd : d = c
        · rw [hd]
          exact iff_of_true (.inr (.inr (.inr hc))) (.inl rfl)
        · rw [List.mem_erase_of_ne hd, or_iff_right hd]
      · exact hheld.unused

theorem Held.silence (h : Held s) :
    Used s ({ s with message := none }.dropChannel s.message) :=
  h.drops fun d => by
    unfold channelRefs
    simp [or_left_comm]

theorem Held.clearChannels {l : List Nat} (h : Held s) (hl : s.audioChannels = l) :
    Used s (s.clearChannels l) := by
  induction l generalizing s with
  | nil => exact h.unused
  | cons c rest ih =>
    have hdrop : Used s ({ s with audioChannels := rest }.dropChannel (some c)) :=
      h.drops fun d => by
        unfold channelRefs
        rw [hl]
        simp [or_left_comm]
    refine hdrop.trans fun hheld => ih hheld ?_
    obtain ⟨clocks, channels, heq⟩ := dropChannel_eq { s with audioChannels := rest } (some c)
    rw [heq]

/-! ## Opening -/

variable {side side' : SideObjects} {b b' : Book} {before after : List Nat}

theorem openDecoder_owns {d : DecoderOpening} (hquiet : side.Quiet) (h : b.Owns (before ++ after))
    (hs : openDecoder side b d = (side', b')) :
    b'.Owns (before ++ (side'.codecContext.toList ++ after)) ∧
      (side'.coroutine = true → side'.codecContext.isSome = true) ∧ side'.display = false ∧
      side'.stream = side.stream ∧ side'.onEof = side.onEof := by
  obtain ⟨hcoroutine, -, hdisplay⟩ := hquiet
  have hnew : b.obtain.Owns (before ++ ([b.next] ++ after)) := by
    refine h.obtain.recount fun i => ?_
    simp [List.count_cons]
    omega
  cases d with
  | unallocated =>
    obtain ⟨rfl, rfl⟩ := Prod.mk.inj hs
    refine ⟨h, fun hrun => ?_, hdisplay, rfl, rfl⟩
    rw [hcoroutine] at hrun
    cases hrun
  | failed =>
    obtain ⟨rfl, rfl⟩ := Prod.mk.inj hs
    exact ⟨hnew, fun _ => rfl, hdisplay, rfl, rfl⟩
  | opened =>
    obtain ⟨rfl, rfl⟩ := Prod.mk.inj hs
    exact ⟨hnew, fun _ => rfl, hdisplay, rfl, rfl⟩

theorem Used.reader (h : Used s t) : t.reader = s.reader := by
  obtain ⟨-, _, _, _, _, _, _, rfl⟩ := h
  rfl

theorem Keeps.openVideo {d : DecoderOpening} {hasVideo hasAudio : Bool} (h : Keeps s)
    (hreader : s.reader = .openingVideo hasVideo hasAudio) :
    Keeps { s.openVideo d with reader := .openingAudio hasAudio } := by
  obtain ⟨⟨hcontexts, hchannels, hclocks, hclocked⟩, -, haudio, -, hchannel, hstage, hunharmed⟩ := h
  rw [hreader] at hstage
  obtain ⟨⟨hquiet, hidle⟩, hformat, hlocals, hsync⟩ := hstage
  have howned : s.contexts.Owns ((s.formatContext.toList ++ s.locals.toList) ++
      s.audio.codecContext.toList) := by
    refine hcontexts.recount fun i => ?_
    unfold owned
    rw [hquiet.2.1]
    simp
  unfold PlayObjects.openVideo
  dsimp only
  have hquiet' : SideObjects.Quiet
      { s.video with stream := s.formatContext, onEof := s.locals } := hquiet
  generalize hside : openDecoder _ s.contexts d = opened
  obtain ⟨side, contexts⟩ := opened
  obtain ⟨howns, hcodec, hdisplay, hstream, honEof⟩ := openDecoder_owns hquiet' howned hside
  have howns' : contexts.Owns (s.formatContext.toList ++ (s.locals.toList ++
      (side.codecContext.toList ++ s.audio.codecContext.toList))) := by
    refine howns.recount fun i => ?_
    simp
  dsimp only at hstream honEof ⊢
  split
  · exact ⟨⟨howns', hchannels, hclocks, hclocked⟩,
      ⟨hcodec, fun _ => ⟨hstream, hformat⟩, fun _ => ⟨honEof, hlocals⟩⟩, haudio,
      fun _ => ⟨rfl, hsync⟩, hchannel, ⟨hidle, hformat, hlocals, hsync⟩, hunharmed⟩
  · exact ⟨⟨howns', hchannels, hclocks, hclocked⟩,
      ⟨hcodec, fun _ => ⟨hstream, hformat⟩, fun _ => ⟨honEof, hlocals⟩⟩, haudio,
      fun _ => ⟨rfl, hsync⟩, hchannel, ⟨hidle, hformat, hlocals, hsync⟩, hunharmed⟩

/-- Before `Audio::open` there is no channel to let go of. -/
theorem addChannel_eq (hchannel : s.channel = none) : s.addChannel =
    { s with
      channels := s.channels.obtain
      clockOf := Function.update s.clockOf s.channels.next s.synchronize
      channel := some s.channels.next
      audioChan := s.audioChan ++ [ChannelMessage.addChannel s.channels.next] } := by
  unfold PlayObjects.addChannel
  rw [hchannel]
  rfl

theorem Held.addChannel (h : Held s) (hchannel : s.channel = none)
    (hsync : s.synchronize.isSome = true) : Held s.addChannel := by
  obtain ⟨hcontexts, hchannels, hclocks, hclocked⟩ := h
  have hnew := hchannels.next_new
  rw [addChannel_eq hchannel]
  -- the new channel has a number of its own
  have hold (c : Nat) (hc : c ∈ s.channelRefs) :
      Function.update s.clockOf s.channels.next s.synchronize c = s.clockOf c :=
    Function.update_of_ne (fun heq => hnew (by rw [← heq]; exact hc)) ..
  have hmem (c : Nat) : c ∈ channelRefs { s with
      channels := s.channels.obtain
      clockOf := Function.update s.clockOf s.channels.next s.synchronize
      channel := some s.channels.next
      audioChan := s.audioChan ++ [ChannelMessage.addChannel s.channels.next] } ↔
      c = s.channels.next ∨ c ∈ s.channelRefs := by
    simp only [mem_channelRefs, hchannel, Option.some_inj, List.mem_append, List.mem_singleton]
    constructor
    · rintro (rfl | hc | ⟨m, hm | rfl, rfl⟩ | hc)
      · exact .inl rfl
      · exact .inr (.inr (.inl hc))
      · exact .inr (.inr (.inr (.inl ⟨m, hm, rfl⟩)))
      · exact .inl rfl
      · exact .inr (.inr (.inr (.inr hc)))
    · rintro (rfl | hc | hc | ⟨m, hm, rfl⟩ | hc)
      · exact .inl rfl
      · cases hc
      · exact .inr (.inl hc)
      · exact .inr (.inr (.inl ⟨m, .inl hm, rfl⟩))
      · exact .inr (.inr (.inr hc))
  refine ⟨hcontexts, ?_, ?_, ?_⟩
  · refine hchannels.obtain.congr fun i => ?_
    rw [hmem i, List.mem_cons]
  · refine hclocks.congr fun i => ?_
    unfold clockRefs
    simp only [List.mem_append, List.mem_filterMap, hmem]
    constructor
    · rintro (hi | ⟨c, hc, hi⟩)
      · exact .inl hi
      · exact .inr ⟨c, .inr hc, (hold c hc).trans hi⟩
    · rintro (hi | ⟨c, rfl | hc, hi⟩)
      · exact .inl hi
      · rw [Function.update_self] at hi
        exact .inl (Option.mem_toList.mpr hi)
      · exact .inr ⟨c, hc, (hold c hc).symm.trans hi⟩
  · intro c hc
    dsimp only
    rcases (hmem c).mp hc with rfl | hc
    · rw [Function.update_self]
      exact hsync
    · rw [hold c hc]
      exact hclocked c hc

theorem Keeps.openAudio {d : DecoderOpening} {device hasAudio : Bool} (h : Keeps s)
    (hreader : s.reader = .openingAudio hasAudio) :
    Keeps { s.openAudio d device with reader := .looping } := by
  obtain ⟨⟨hcontexts, hchannels, hclocks, hclocked⟩, hvideo, -, hraw, -, hstage, hunharmed⟩ := h
  rw [hreader] at hstage
  obtain ⟨⟨hquiet, hchannel⟩, hformat, hlocals, hsync⟩ := hstage
  have howned : s.contexts.Owns ((s.formatContext.toList ++ s.locals.toList ++
      s.video.codecContext.toList) ++ []) := by
    refine hcontexts.recount fun i => ?_
    unfold owned
    rw [hquiet.2.1]
    simp
  unfold PlayObjects.openAudio
  dsimp only
  have hquiet' : SideObjects.Quiet
      { s.audio with stream := s.formatContext, onEof := s.locals } := hquiet
  generalize hside : openDecoder _ s.contexts d = opened
  obtain ⟨side, contexts⟩ := opened
  obtain ⟨howns, hcodec, hdisplay, hstream, honEof⟩ := openDecoder_owns hquiet' howned hside
  have howns' : contexts.Owns (s.formatContext.toList ++ (s.locals.toList ++
      (s.video.codecContext.toList ++ side.codecContext.toList))) := by
    refine howns.recount fun i => ?_
    simp
  dsimp only at hdisplay hstream honEof ⊢
  split
  · have hadded := Held.addChannel (s := { s with contexts := contexts, audio := side })
      ⟨howns', hchannels, hclocks, hclocked⟩ hchannel hsync
    have heq := addChannel_eq (s := { s with contexts := contexts, audio := side }) hchannel
    rw [heq] at hadded ⊢
    exact ⟨⟨hadded.contexts, hadded.channels, hadded.clocks, hadded.clocked⟩, hvideo,
      ⟨hcodec, fun _ => ⟨hstream, hformat⟩, fun _ => ⟨honEof, hlocals⟩⟩, hraw,
      fun _ => ⟨rfl, hsync⟩, ⟨hformat, hlocals, hsync⟩, hunharmed⟩
  · refine ⟨⟨howns', hchannels, hclocks, hclocked⟩, hvideo,
      ⟨hcodec, fun _ => ⟨hstream, hformat⟩, fun _ => ⟨honEof, hlocals⟩⟩, hraw,
      fun hrun => ?_, ⟨hformat, hlocals, hsync⟩, hunharmed⟩
    rw [hdisplay] at hrun
    cases hrun

/-! ## Closing -/

/-- A step of `close` on one side. -/
theorem closeSide_spec {pc : SideClosePc} {formatContext locals : Option Nat}
    (htied : side.Tied formatContext locals) (hbehind : side.Behind pc)
    (howns : b.Owns (before ++ (side.codecContext.toList ++ after)))
    (hs : closeSide side b pc = some (side', b')) :
    side'.Tied formatContext locals ∧ b'.Owns (before ++ (side'.codecContext.toList ++ after)) ∧
      (side'.display = true → side.display = true) ∧
      match pc.next with
      | some next => side'.Behind next
      | none => side'.Quiet := by
  cases pc with
  | stopping =>
    obtain ⟨rfl, rfl⟩ := Prod.mk.inj (Option.some.inj hs)
    exact ⟨⟨htied.codecContext, htied.stream, htied.onEof⟩, howns, id, trivial⟩
  | joiningDecoder =>
    simp only [closeSide] at hs
    split at hs
    · cases hs
    · next hcoroutine =>
      obtain ⟨rfl, rfl⟩ := Prod.mk.inj (Option.some.inj hs)
      exact ⟨htied, howns, id, Bool.eq_false_iff.mpr hcoroutine⟩
  | freeing =>
    obtain ⟨rfl, rfl⟩ := Prod.mk.inj (Option.some.inj hs)
    have hcoroutine : side.coroutine = false := hbehind
    refine ⟨⟨fun hrun => ?_, htied.stream, htied.onEof⟩, ?_, id, hcoroutine, rfl⟩
    · rw [hcoroutine] at hrun
      cases hrun
    · exact howns.freeOpt
  | halting =>
    obtain ⟨rfl, rfl⟩ := Prod.mk.inj (Option.some.inj hs)
    exact ⟨⟨htied.codecContext, htied.stream, htied.onEof⟩, howns, id, hbehind⟩
  | joiningDisplay =>
    simp only [closeSide] at hs
    split at hs
    · cases hs
    · next hdisplay =>
      obtain ⟨rfl, rfl⟩ := Prod.mk.inj (Option.some.inj hs)
      exact ⟨htied, howns, id, hbehind.1, hbehind.2, Bool.eq_false_iff.mpr hdisplay⟩

theorem Keeps.closeVideo {pc : SideClosePc} {contexts : Book} (h : Keeps s)
    (hreader : s.reader = .closingVideo pc)
    (hs : closeSide s.video s.contexts pc = some (side', contexts)) :
    Keeps { s with
      reader := pc.next.elim (.closingAudio .stopping) .closingVideo
      video := side', contexts := contexts } := by
  obtain ⟨⟨hcontexts, hchannels, hclocks, hclocked⟩, hvideo, haudio, hraw, hchannel, hstage,
    hunharmed⟩ := h
  rw [hreader] at hstage
  obtain ⟨hbehind, hthread⟩ := hstage
  have howned : s.contexts.Owns ((s.formatContext.toList ++ s.locals.toList) ++
      (s.video.codecContext.toList ++ s.audio.codecContext.toList)) := by
    refine hcontexts.recount fun i => ?_
    unfold owned
    simp
  obtain ⟨htied, howns, hdisplay, hnext⟩ := closeSide_spec hvideo hbehind howned hs
  refine ⟨⟨howns.recount fun i => ?_, hchannels, hclocks, hclocked⟩, htied, haudio,
    fun hrun => hraw (hdisplay hrun), hchannel, ?_, hunharmed⟩
  · unfold owned
    simp
  · dsimp only
    split at hnext
    · next hpc =>
      rw [hpc]
      exact ⟨hnext, hthread⟩
    · next hpc =>
      rw [hpc]
      exact ⟨hnext, trivial, hthread⟩

theorem Keeps.closeAudio {pc : SideClosePc} {contexts : Book} (h : Keeps s)
    (hreader : s.reader = .closingAudio pc)
    (hs : closeSide s.audio s.contexts pc = some (side', contexts)) :
    Keeps { s with
      reader := pc.next.elim .removingChannel .closingAudio
      audio := side', contexts := contexts } := by
  obtain ⟨⟨hcontexts, hchannels, hclocks, hclocked⟩, hvideo, haudio, hraw, hchannel, hstage,
    hunharmed⟩ := h
  rw [hreader] at hstage
  obtain ⟨hquiet, hbehind, hthread⟩ := hstage
  have howned : s.contexts.Owns ((s.formatContext.toList ++ s.locals.toList ++
      s.video.codecContext.toList) ++ (s.audio.codecContext.toList ++ [])) := by
    refine hcontexts.recount fun i => ?_
    unfold owned
    simp
  obtain ⟨htied, howns, hdisplay, hnext⟩ := closeSide_spec haudio hbehind howned hs
  refine ⟨⟨howns.recount fun i => ?_, hchannels, hclocks, hclocked⟩, hvideo, htied, hraw,
    fun hrun => hchannel (hdisplay hrun), ?_, hunharmed⟩
  · unfold owned
    simp
  · dsimp only
    split at hnext
    · next hpc =>
      rw [hpc]
      exact ⟨hquiet, hnext, hthread⟩
    · next hpc =>
      rw [hpc]
      exact ⟨hquiet, hnext, hthread⟩

/-! ## The reader -/

theorem Keeps.starting (h : Keeps s) (hreader : s.reader = .starting) :
    Keeps { s with
      reader := .allocating, locals := some s.contexts.next
      contexts := s.contexts.obtain }.makeSynchronize := by
  obtain ⟨⟨hcontexts, hchannels, hclocks, hclocked⟩, -, -, -, -, hstage, hunharmed⟩ := h
  rw [hreader] at hstage
  obtain ⟨hidle, hformat, hlocals⟩ := hstage
  unfold PlayObjects.makeSynchronize
  refine ⟨⟨hcontexts.obtain.recount fun i => ?_, hchannels, ?_, hclocked⟩, hidle.1.tied,
    hidle.2.1.tied, fun hrun => ?_, fun hrun => ?_, ⟨hidle, hformat, rfl, rfl⟩, hunharmed⟩
  · unfold owned
    rw [hformat, hlocals]
    simp [List.count_cons]
  · refine Book.Shares.releaseOpt (hclocks.obtain.congr fun i => ?_)
    unfold clockRefs
    simp only [List.mem_cons, List.mem_append]
    rw [or_left_comm]
    exact or_congr_right (or_congr_left List.mem_singleton.symm)
  · rw [hidle.1.2.2] at hrun
    cases hrun
  · rw [hidle.2.1.2.2] at hrun
    cases hrun

theorem Held.removeChannel (h : Held s) : Held s.removeChannel ∧
    ∃ clocks channels audioChan, s.removeChannel = { s with
      clocks := clocks, channels := channels, audioChan := audioChan, channel := none } := by
  unfold PlayObjects.removeChannel
  split
  · next hchannel =>
    refine ⟨h, s.clocks, s.channels, s.audioChan, ?_⟩
    rw [← hchannel]
  · next c hchannel =>
    refine ⟨h.dropChannel rfl rfl rfl rfl rfl rfl fun d => ?_, _, _, _, rfl⟩
    simp only [mem_channelRefs, hchannel, Option.toList_some, List.mem_append, List.mem_singleton,
      Option.some_inj]
    constructor
    · rintro (rfl | hd | ⟨m, hm, rfl⟩ | hd)
      · exact .inl rfl
      · exact .inr (.inr (.inl hd))
      · exact .inr (.inr (.inr (.inl ⟨m, .inl hm, rfl⟩)))
      · exact .inr (.inr (.inr (.inr hd)))
    · rintro (rfl | hd | hd | ⟨m, hm | rfl, rfl⟩ | hd)
      · exact .inl rfl
      · cases hd
      · exact .inr (.inl hd)
      · exact .inr (.inr (.inl ⟨m, hm, rfl⟩))
      · exact .inl rfl
      · exact .inr (.inr (.inr hd))

theorem Keeps.readerStep (h : Keeps s) (hs : s.readerStep = some t) : Keeps t := by
  have hstage := h.stage
  unfold PlayObjects.readerStep at hs
  split at hs
  · next hreader =>
    obtain rfl := Option.some.inj hs
    exact h.starting hreader
  · next hasAudio hreader =>
    obtain rfl := Option.some.inj hs
    rw [hreader] at hstage
    exact h.goOn h.held.unused ⟨hstage.1.2, hstage.2⟩
  · next hreader =>
    obtain rfl := Option.some.inj hs
    rw [hreader] at hstage
    have hloop : Keeps { s with reader := .looping } := h.goOn h.held.unused hstage.2
    exact hloop.used (hloop.held.useSynchronize hstage.2.2.2)
  · next pc hreader =>
    obtain ⟨⟨side, contexts⟩, hclose, rfl⟩ := Option.map_eq_some_iff.mp hs
    exact h.closeVideo hreader hclose
  · next pc hreader =>
    obtain ⟨⟨side, contexts⟩, hclose, rfl⟩ := Option.map_eq_some_iff.mp hs
    exact h.closeAudio hreader hclose
  · next hreader =>
    obtain rfl := Option.some.inj hs
    rw [hreader] at hstage
    obtain ⟨hvideo, haudio, hthread⟩ := hstage
    obtain ⟨hheld, clocks, channels, audioChan, heq⟩ := h.held.removeChannel
    rw [heq] at hheld ⊢
    exact ⟨⟨hheld.contexts, hheld.channels, hheld.clocks, hheld.clocked⟩, h.video, haudio.tied,
      h.sync, fun hrun => absurd hrun (by rw [haudio.2.2]; decide),
      ⟨⟨hvideo, haudio, rfl⟩, hthread⟩, h.unharmed⟩
  · next hreader =>
    obtain rfl := Option.some.inj hs
    rw [hreader] at hstage
    obtain ⟨hidle, hthread⟩ := hstage
    have hfreed : (s.contexts.freeOpt s.formatContext).Owns ([] ++ _) :=
      Book.Owns.freeOpt h.held.contexts
    exact ⟨⟨hfreed, h.held.channels, h.held.clocks, h.held.clocked⟩, hidle.1.tied, hidle.2.1.tied,
      h.sync, h.channel, ⟨hidle, rfl, hthread⟩, h.unharmed⟩
  · next hreader =>
    obtain rfl := Option.some.inj hs
    rw [hreader] at hstage
    obtain ⟨hidle, hformat, hthread⟩ := hstage
    exact ⟨⟨h.held.contexts.freeOpt, h.held.channels, h.held.clocks, h.held.clocked⟩,
      hidle.1.tied, hidle.2.1.tied, h.sync, h.channel, ⟨hidle, hformat, rfl⟩, h.unharmed⟩
  · cases hs

/-! ## The threads -/

/-- A thread of the video side leaves. -/
theorem Keeps.leaveVideo {coroutine display : Bool} (h : Keeps s)
    (hcoroutine : coroutine = true → s.video.coroutine = true)
    (hdisplay : display = true → s.video.display = true) :
    Keeps { s with video := { s.video with coroutine := coroutine, display := display } } := by
  refine ⟨⟨h.held.contexts, h.held.channels, h.held.clocks, h.held.clocked⟩,
    h.video.leaves hcoroutine hdisplay, h.audio, fun hrun => h.sync (hdisplay hrun), h.channel, ?_,
    h.unharmed⟩
  have hstage := h.stage
  dsimp only
  cases hreader : s.reader with
  | returned | starting | allocating | openingInput | findingStreams
  | openingVideo hasVideo hasAudio | uncounting | closingInput | returning =>
    rw [hreader] at hstage
    exact ⟨⟨hstage.1.1.leaves hcoroutine hdisplay, hstage.1.2⟩, hstage.2⟩
  | openingAudio hasAudio | looping =>
    rw [hreader] at hstage
    exact hstage
  | closingVideo pc =>
    rw [hreader] at hstage
    exact ⟨hstage.1.leaves hcoroutine, hstage.2⟩
  | closingAudio pc | removingChannel =>
    rw [hreader] at hstage
    exact ⟨hstage.1.leaves hcoroutine hdisplay, hstage.2⟩

theorem Keeps.leaveAudio {coroutine display : Bool} (h : Keeps s)
    (hcoroutine : coroutine = true → s.audio.coroutine = true)
    (hdisplay : display = true → s.audio.display = true) :
    Keeps { s with audio := { s.audio with coroutine := coroutine, display := display } } := by
  refine ⟨⟨h.held.contexts, h.held.channels, h.held.clocks, h.held.clocked⟩, h.video,
    h.audio.leaves hcoroutine hdisplay, h.sync, fun hrun => h.channel (hdisplay hrun), ?_,
    h.unharmed⟩
  have hstage := h.stage
  dsimp only
  cases hreader : s.reader with
  | returned | starting | allocating | openingInput | findingStreams
  | openingVideo hasVideo hasAudio | uncounting | closingInput | returning =>
    rw [hreader] at hstage
    obtain ⟨⟨hvideo, haudio, hchannel⟩, hrest⟩ := hstage
    exact ⟨⟨hvideo, haudio.leaves hcoroutine hdisplay, hchannel⟩, hrest⟩
  | openingAudio hasAudio =>
    rw [hreader] at hstage
    exact ⟨⟨hstage.1.1.leaves hcoroutine hdisplay, hstage.1.2⟩, hstage.2⟩
  | looping | closingVideo pc =>
    rw [hreader] at hstage
    exact hstage
  | closingAudio pc =>
    rw [hreader] at hstage
    exact ⟨hstage.1, hstage.2.1.leaves hcoroutine, hstage.2.2⟩
  | removingChannel =>
    rw [hreader] at hstage
    exact ⟨hstage.1, hstage.2.1.leaves hcoroutine hdisplay, hstage.2.2⟩

theorem Keeps.videoWork {w : SideWork} (h : Keeps s) (hs : s.videoWork w = some t) : Keeps t := by
  unfold PlayObjects.videoWork at hs
  split at hs
  · obtain ⟨hrun, hs⟩ := Option.ite_none_right_eq_some.mp hs
    obtain rfl := Option.some.inj hs
    refine h.used (h.held.useContext (h.video.codecContext hrun) fun i hi => ?_)
    exact List.mem_append_right _ (List.mem_append_right _ (List.mem_append_left _ hi))
  · obtain ⟨-, hs⟩ := Option.ite_none_right_eq_some.mp hs
    obtain rfl := Option.some.inj hs
    exact h.leaveVideo (fun hrun => absurd hrun (by decide)) id
  · obtain ⟨hrun, hs⟩ := Option.ite_none_right_eq_some.mp hs
    obtain rfl := Option.some.inj hs
    obtain ⟨hstream, hformat⟩ := h.video.stream hrun
    rw [hstream]
    exact h.used (h.held.useFormat hformat)
  · obtain ⟨hrun, hs⟩ := Option.ite_none_right_eq_some.mp hs
    obtain rfl := Option.some.inj hs
    obtain ⟨hraw, hsync⟩ := h.sync hrun
    rw [hraw]
    exact h.used (h.held.useSynchronize hsync)
  · obtain ⟨hrun, hs⟩ := Option.ite_none_right_eq_some.mp hs
    obtain rfl := Option.some.inj hs
    obtain ⟨honEof, hlocals⟩ := h.video.onEof hrun
    rw [honEof]
    exact h.used (h.held.useLocals hlocals)
  · obtain ⟨-, hs⟩ := Option.ite_none_right_eq_some.mp hs
    obtain rfl := Option.some.inj hs
    exact h.leaveVideo id fun hrun => absurd hrun (by decide)

theorem Keeps.audioWork {w : SideWork} (h : Keeps s) (hs : s.audioWork w = some t) : Keeps t := by
  unfold PlayObjects.audioWork at hs
  split at hs
  · obtain ⟨hrun, hs⟩ := Option.ite_none_right_eq_some.mp hs
    obtain rfl := Option.some.inj hs
    refine h.used (h.held.useContext (h.audio.codecContext hrun) fun i hi => ?_)
    exact List.mem_append_right _ (List.mem_append_right _ (List.mem_append_right _ hi))
  · obtain ⟨-, hs⟩ := Option.ite_none_right_eq_some.mp hs
    obtain rfl := Option.some.inj hs
    exact h.leaveAudio (fun hrun => absurd hrun (by decide)) id
  · obtain ⟨hrun, hs⟩ := Option.ite_none_right_eq_some.mp hs
    obtain rfl := Option.some.inj hs
    obtain ⟨hstream, hformat⟩ := h.audio.stream hrun
    rw [hstream]
    exact h.used (h.held.useFormat hformat)
  · obtain ⟨hrun, hs⟩ := Option.ite_none_right_eq_some.mp hs
    obtain rfl := Option.some.inj hs
    exact h.used (h.held.useChannel (h.channel hrun).1 (List.subset_append_left ..))
  · obtain ⟨hrun, hs⟩ := Option.ite_none_right_eq_some.mp hs
    obtain rfl := Option.some.inj hs
    obtain ⟨honEof, hlocals⟩ := h.audio.onEof hrun
    rw [honEof]
    have hused := h.held.useLocals hlocals
    have hkeeps := h.used hused
    obtain ⟨-, _, _, _, _, _, _, heq⟩ := hused
    rw [heq] at hkeeps ⊢
    exact hkeeps.used (hkeeps.held.useSynchronize (h.channel hrun).2)
  · obtain ⟨-, hs⟩ := Option.ite_none_right_eq_some.mp hs
    obtain rfl := Option.some.inj hs
    exact h.leaveAudio id fun hrun => absurd hrun (by decide)

/-! ## Runs -/

/-- A pass of the loop. -/
theorem Keeps.pass (h : Keeps s) (hformat : s.formatContext.isSome = true)
    (hlocals : s.locals.isSome = true) :
    Used s ((s.useContext s.formatContext).useContext s.locals) := by
  have hused := h.held.useFormat hformat
  refine hused.trans fun hheld => ?_
  obtain ⟨-, _, _, _, _, _, _, heq⟩ := hused
  rw [heq] at hheld ⊢
  exact hheld.useLocals hlocals

theorem Keeps.step {a : PlayObjectAct} (h : Keeps s) (hok : s.Allocates a)
    (hs : s.step a = some t) : Keeps t := by
  have hstage := h.stage
  cases a with
  | start =>
    simp only [PlayObjects.step] at hs
    split at hs
    · next hreader =>
      obtain rfl := Option.some.inj hs
      rw [hreader] at hstage
      exact ⟨⟨h.held.contexts, h.held.channels, h.held.clocks, h.held.clocked⟩, h.video, h.audio,
        h.sync, h.channel, hstage, h.unharmed⟩
    · cases hs
  | stop =>
    obtain rfl := Option.some.inj hs
    exact ⟨⟨h.held.contexts, h.held.channels, h.held.clocks, h.held.clocked⟩, h.video, h.audio,
      h.sync, h.channel, hstage, h.unharmed⟩
  | reader => exact h.readerStep hs
  | allocContext ok =>
    obtain rfl : ok = true := hok
    simp only [PlayObjects.step] at hs
    split at hs
    · next hreader =>
      obtain rfl := Option.some.inj hs
      rw [hreader] at hstage
      obtain ⟨hidle, hformat, hthread⟩ := hstage
      refine ⟨⟨h.held.contexts.obtain.recount fun i => ?_, h.held.channels, h.held.clocks,
        h.held.clocked⟩, hidle.1.tied, hidle.2.1.tied, h.sync, h.channel, ⟨hidle, rfl, hthread⟩,
        h.unharmed⟩
      unfold owned
      rw [hformat]
      simp [List.count_cons]
    · cases hs
  | interrupt =>
    have hsync (hthread : s.InThread) : Keeps (s.useClock s.synchronize) :=
      h.used (h.held.useSynchronize hthread.2)
    simp only [PlayObjects.step] at hs
    split at hs
    · next hreader =>
      obtain rfl := Option.some.inj hs
      rw [hreader] at hstage
      exact hsync hstage.2.2
    · next hreader =>
      obtain rfl := Option.some.inj hs
      rw [hreader] at hstage
      exact hsync hstage.2.2
    · next hreader =>
      obtain rfl := Option.some.inj hs
      rw [hreader] at hstage
      exact hsync hstage.2
    · cases hs
  | openInput ok =>
    simp only [PlayObjects.step] at hs
    split at hs
    · next hreader =>
      rw [hreader] at hstage
      obtain ⟨hidle, hformat, hthread⟩ := hstage
      split at hs
      · obtain rfl := Option.some.inj hs
        exact h.goOn (h.held.useFormat hformat) ⟨hidle, hformat, hthread⟩
      · obtain rfl := Option.some.inj hs
        have hfreed : (s.contexts.freeOpt s.formatContext).Owns ([] ++ _) :=
          Book.Owns.freeOpt h.held.contexts
        exact ⟨⟨hfreed, h.held.channels, h.held.clocks, h.held.clocked⟩, hidle.1.tied,
          hidle.2.1.tied, h.sync, h.channel, ⟨trivial, hthread⟩, h.unharmed⟩
    · cases hs
  | findStreams found =>
    simp only [PlayObjects.step] at hs
    split at hs
    · next hreader =>
      obtain rfl := Option.some.inj hs
      rw [hreader] at hstage
      obtain ⟨hidle, hformat, hthread⟩ := hstage
      refine h.goOn (h.held.useFormat hformat) ?_
      cases found with
      | none => exact ⟨trivial, hthread⟩
      | some found => exact ⟨hidle, hformat, hthread⟩
    · cases hs
  | openVideo decoder =>
    simp only [PlayObjects.step] at hs
    split at hs
    · next hasAudio hreader =>
      obtain rfl := Option.some.inj hs
      rw [hreader] at hstage
      have hused := h.held.useFormat hstage.2.1
      exact (h.used hused).openVideo (hused.reader.trans hreader)
    · cases hs
  | openAudio decoder device =>
    simp only [PlayObjects.step] at hs
    split at hs
    · next hreader =>
      obtain rfl := Option.some.inj hs
      rw [hreader] at hstage
      have hused := h.held.useFormat hstage.2.1
      have hopened := @Keeps.openAudio _ decoder device _ (h.used hused)
        (hused.reader.trans hreader)
      exact hopened.used (hopened.held.useSynchronize hopened.stage.2.2)
    · cases hs
  | pass =>
    simp only [PlayObjects.step] at hs
    split at hs
    · next hreader =>
      obtain rfl := Option.some.inj hs
      rw [hreader] at hstage
      exact h.used (h.pass hstage.1 hstage.2.1)
    · cases hs
  | rewind =>
    simp only [PlayObjects.step] at hs
    split at hs
    · next hreader =>
      obtain rfl := Option.some.inj hs
      rw [hreader] at hstage
      have hused := h.pass hstage.1 hstage.2.1
      have hkeeps := h.used hused
      obtain ⟨-, _, _, _, _, _, _, heq⟩ := hused
      rw [heq] at hkeeps ⊢
      exact hkeeps.used (hkeeps.held.useSynchronize hstage.2.2)
    · cases hs
  | leave error =>
    simp only [PlayObjects.step] at hs
    split at hs
    · next hreader =>
      obtain ⟨-, hs⟩ := Option.ite_none_right_eq_some.mp hs
      obtain rfl := Option.some.inj hs
      rw [hreader] at hstage
      exact h.goOn h.held.unused ⟨trivial, hstage.2⟩
    · cases hs
  | uncount clears =>
    simp only [PlayObjects.step] at hs
    split at hs
    · next hreader =>
      obtain rfl := Option.some.inj hs
      rw [hreader] at hstage
      have hgone : Keeps { s with reader := .closingInput } := h.goOn h.held.unused hstage
      split
      · exact hgone.used (hgone.held.clearChannels rfl)
      · exact hgone
    · cases hs
  | video w => exact h.videoWork hs
  | audio w => exact h.audioWork hs
  | pop => exact h.used (h.held.pop hs)
  | mix c =>
    obtain ⟨hc, hs⟩ := Option.ite_none_right_eq_some.mp hs
    obtain rfl := Option.some.inj hs
    refine h.used (h.held.useChannel rfl fun d hd => ?_)
    rw [List.mem_singleton.mp hd]
    exact mem_channelRefs.mpr (.inr (.inr (.inr hc)))
  | silence =>
    obtain rfl := Option.some.inj hs
    exact h.used h.held.silence

theorem keeps_of_reach (h : ReachIf step Allocates {} s) : Keeps s :=
  h.invariant keeps_start fun _ _ _ hI hok hs => hI.step hok hs

end PlayObjects

open PlayObjects

/-- If `avformat_alloc_context` succeeds, nothing that a session points to is freed before the last
use of it, and no null pointer is followed.  A channel or a clock is freed as soon as no
`shared_ptr` to it is left, everything else by the time `_readThread` returns. -/
theorem player_objects_alive {s : PlayObjects} (h : ReachIf step Allocates {} s) :
    s.crashed = false ∧
      UsedAlive s.contexts.entries ∧ UsedAlive s.channels.entries ∧ UsedAlive s.clocks.entries ∧
      (∀ c, .alloc c ∈ s.channels.entries → (.free c ∉ s.channels.entries ↔ c ∈ s.channelRefs)) ∧
      (∀ i, .alloc i ∈ s.clocks.entries → (.free i ∉ s.clocks.entries ↔ i ∈ s.clockRefs)) ∧
      (s.reader = .returned → s.Idle ∧
        ∀ i, .alloc i ∈ s.contexts.entries → s.contexts.entries.count (.free i) = 1) := by
  obtain ⟨⟨hcontexts, hchannels, hclocks, -⟩, -, -, -, -, hstage, hunharmed⟩ := keeps_of_reach h
  refine ⟨hunharmed, hcontexts.usedAlive, Book.Owns.usedAlive hchannels,
    Book.Owns.usedAlive hclocks, fun c hc => ?_, fun i hi => ?_, fun hreader => ?_⟩
  · rw [Book.Owns.alive_iff hchannels hc, List.mem_dedup]
  · rw [Book.Owns.alive_iff hclocks hi, List.mem_dedup]
  · rw [hreader] at hstage
    obtain ⟨hidle, hformat, hlocals⟩ := hstage
    refine ⟨hidle, fun i hi => ?_⟩
    have howned : s.owned = [] := by
      unfold owned
      rw [hformat, hlocals, hidle.1.2.1, hidle.2.1.2.1]
      rfl
    rw [howned] at hcontexts
    exact hcontexts.settled hi

/-- The callback still mixes a channel of the first session, with the first clock, when the
second session has replaced it. -/
theorem player_objects_alive_twice : ∃ s : PlayObjects, s.synchronize = some 1 ∧
    s.audioChannels = [0] ∧ (s.clockOf 0 = some 0 ∧ .free 0 ∉ s.clocks.entries) ∧
    .free 0 ∈ s.contexts.entries ∧ UsedAlive s.clocks.entries := by
  obtain ⟨s, hreach, hend⟩ := reach_of_any (guarded step Allocates) {}
    ([.start, .reader, .allocContext true, .interrupt, .openInput true, .findStreams (some (true, true)),
      .openVideo .opened, .openAudio .opened true, .pop, .pass, .video .decode, .video .stream,
      .video .clock, .audio .clock, .mix 0, .video .eof, .audio .eof, .rewind, .stop,
      .leave false, .reader, .video .leaveDecoder] ++ List.replicate 3 .reader ++
      [.video .leaveDisplay, .reader, .reader, .audio .leaveDecoder] ++
      List.replicate 3 .reader ++ [.audio .leaveDisplay, .reader, .reader, .uncount false,
      .reader, .reader, .start, .reader, .mix 0])
    (fun s => s.synchronize = some 1 ∧ s.audioChannels = [0] ∧ s.clockOf 0 = some 0 ∧
      .alloc 0 ∈ s.clocks.entries ∧ .free 0 ∈ s.contexts.entries) (by decide +kernel)
  obtain ⟨hsync, hset, hclock, halloc, hfree⟩ := of_decide_eq_true hend
  obtain ⟨-, -, -, halive, -, hiff, -⟩ := player_objects_alive (reachIf_of_guarded hreach)
  have hmem : 0 ∈ s.clockRefs :=
    clockOf_mem (mem_channelRefs.mpr (.inr (.inr (.inr (by rw [hset]; simp))))) hclock
  exact ⟨s, hsync, hset, ⟨hclock, (hiff 0 halloc).mpr hmem⟩, hfree, halive⟩

end VideoPlayerCore
