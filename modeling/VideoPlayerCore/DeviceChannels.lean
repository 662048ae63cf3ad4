import VideoPlayerCore.AudioDevice
import VideoPlayerCore.Rosters

/-!
# Which sessions the audio callback mixes

A session that opens audio sends its channel to the callback, and takes it back when it
closes; the callback keeps the channels in `_audioChannels` and reads the messages before it
mixes.  `close` clears the channels when the count is 0, whatever is still on its way.

    i ∈ s.heard → s.Plays i, in every run
    i ∈ s.heard ↔ s.Plays i, in every run whose closes are counted    (channels_follow_sessions)

`heard` is what `_audioChannels` comes to once the messages are read; a session that closes
behind the last message is still mixed by the callback that runs.  A session that plays and is
on `heard` leaves it only by a close that brings the count to 0.
-/

namespace VideoPlayerCore

open Machine Rosters

def ChannelMessage.notice : ChannelMessage → Notice Nat
  | .addChannel i => .joins i
  | .removeChannel i => .leaves i

namespace AudioDevice

variable {s t : AudioDevice} {a : AudioAct} {i j : Nat}

/-- The sessions that are mixed once the callback has read its messages. -/
def heard (s : AudioDevice) : List Nat :=
  replay s.audioChannels (s.audioChan.map ChannelMessage.notice)

/-- `Audio::open` has sent the channel, and `Audio::close` has not taken it back. -/
def Plays (s : AudioDevice) (i : Nat) : Prop := s.sessions[i]? = some .playing

instance (s : AudioDevice) (i : Nat) : Decidable (s.Plays i) := inferInstanceAs (Decidable (_ = _))

theorem plays_setPhase {p q : AudioPhase} (h : s.sessions[i]? = some p) :
    (s.setPhase i q).Plays j ↔ if j = i then q = .playing else s.Plays j := by
  obtain ⟨hi, -⟩ := List.getElem?_eq_some_iff.mp h
  unfold Plays setPhase
  dsimp only
  by_cases hji : j = i
  · rw [if_pos hji, hji, List.getElem?_set_self hi, Option.some_inj]
  · rw [if_neg hji, List.getElem?_set_ne (Ne.symm hji)]

/-- Between phases that do not play nothing is heard of it. -/
theorem plays_setPhase_silent {p q : AudioPhase} (h : s.sessions[i]? = some p)
    (hp : p ≠ .playing) (hq : q ≠ .playing) : (s.setPhase i q).Plays j ↔ s.Plays j := by
  rw [plays_setPhase h]
  by_cases hji : j = i
  · rw [if_pos hji]
    refine iff_of_false hq fun hplays => hp ?_
    rw [hji] at hplays
    exact Option.some.inj (h.symm.trans hplays)
  · rw [if_neg hji]

theorem popMessage_cases (h : s.popMessage = some t) : ∃ m rest, s.audioChan = m :: rest ∧
    t = { s with audioChan := rest, audioChannels := post s.audioChannels m.notice } := by
  unfold popMessage at h
  split at h
  · cases h
  · next i rest hchan =>
    obtain rfl := Option.some.inj h
    exact ⟨_, rest, hchan, rfl⟩
  · next i rest hchan =>
    obtain rfl := Option.some.inj h
    exact ⟨_, rest, hchan, rfl⟩

/-- What a step does to the messages, the channels and who plays. -/
inductive Turns (s t : AudioDevice) : AudioAct → Prop
  | stays (b : AudioAct) (hchannels : t.audioChannels = s.audioChannels)
      (hchan : t.audioChan = s.audioChan) (hplays : ∀ j, t.Plays j ↔ s.Plays j) : Turns s t b
  | reads (m : ChannelMessage) (hchan : s.audioChan = m :: t.audioChan)
      (hchannels : t.audioChannels = post s.audioChannels m.notice)
      (hplays : ∀ j, t.Plays j ↔ s.Plays j) : Turns s t .callback
  | joins (i : Nat) (hchannels : t.audioChannels = s.audioChannels)
      (hchan : t.audioChan = s.audioChan ++ [.addChannel i])
      (hplays : ∀ j, t.Plays j ↔ j = i ∨ s.Plays j) : Turns s t (.addChannel i)
  | leaves (i : Nat) (hchannels : t.audioChannels = s.audioChannels)
      (hchan : t.audioChan = s.audioChan ++ [.removeChannel i])
      (hplays : ∀ j, t.Plays j ↔ j ≠ i ∧ s.Plays j) : Turns s t (.beginClose i)
  | clears (i : Nat) (hcount : t.audioChannleCount = 0) (hchannels : t.audioChannels = [])
      (hchan : t.audioChan = s.audioChan) (hplays : ∀ j, t.Plays j ↔ s.Plays j) :
      Turns s t (.endClose i)

theorem setPhase_turns {p q : AudioPhase} (h : s.sessions[i]? = some p) (hp : p ≠ .playing)
    (hq : q ≠ .playing) (a : AudioAct) : Turns s (s.setPhase i q) a :=
  .stays _ rfl rfl fun _ => plays_setPhase_silent h hp hq

theorem beginClose_turns (h : s.beginClose i = some t) : Turns s t (.beginClose i) := by
  unfold AudioDevice.beginClose at h
  split at h
  · next hp =>
    obtain rfl := Option.some.inj h
    refine .leaves i rfl rfl fun j => ?_
    have hset := plays_setPhase (s := s) (j := j) (q := .closing true) hp
    refine hset.trans ?_
    by_cases hji : j = i
    · rw [if_pos hji]
      exact iff_of_false nofun fun hne => hne.1 hji
    · rw [if_neg hji]
      exact (and_iff_right hji).symm
  · next hp =>
    obtain rfl := Option.some.inj h
    exact setPhase_turns hp (by simp) (by simp) _
  · next hp =>
    obtain rfl := Option.some.inj h
    exact setPhase_turns hp (by simp) (by simp) _
  · next hp =>
    obtain rfl := Option.some.inj h
    exact setPhase_turns hp (by simp) (by simp) _
  · cases h

theorem closeLocked_turns {p : AudioPhase} (h : s.sessions[i]? = some p) (hp : p ≠ .playing) :
    Turns s (s.closeLocked.setPhase i .closed) (.endClose i) := by
  have hplays (j : Nat) : (s.closeLocked.setPhase i .closed).Plays j ↔ s.Plays j := by
    have hsame : s.closeLocked.sessions[i]? = some p := by rw [closeLocked_sessions, h]
    rw [plays_setPhase_silent hsame hp (by simp)]
    unfold Plays
    rw [closeLocked_sessions]
  have hcount := closeLocked_audioChannleCount s
  unfold closeLocked at hplays hcount ⊢
  dsimp only at hplays hcount ⊢
  by_cases hzero : s.audioChannleCount - 1 = 0
  · rw [if_pos hzero] at hplays hcount ⊢
    refine .clears i (hcount.trans hzero) rfl ?_ hplays
    unfold setPhase
    dsimp only
    split <;> rfl
  · rw [if_neg hzero] at hplays ⊢
    exact .stays _ rfl rfl hplays

theorem openLocked_turns {answer : SdlAnswer} (hp : s.sessions[i]? = some .decoding)
    (h : s.openLocked i answer = some t) : Turns s t (.openDevice i answer) := by
  have hsilent {u : AudioDevice} {q : AudioPhase} (hu : u.sessions = s.sessions)
      (hq : q ≠ .playing) (j : Nat) : (u.setPhase i q).Plays j ↔ s.Plays j := by
    have hsame : u.sessions[i]? = some .decoding := by rw [hu, hp]
    rw [plays_setPhase_silent hsame (by simp) hq]
    unfold Plays
    rw [hu]
  cases openLocked_cases h with
  | shared => exact .stays _ rfl rfl (hsilent rfl nofun)
  | initError => exact .stays _ rfl rfl (hsilent rfl nofun)
  | deviceError => exact .stays _ rfl rfl (hsilent rfl nofun)
  | opened =>
    refine .stays _ rfl rfl (hsilent rfl ?_)
    split
    · exact nofun
    · exact nofun

theorem step_turns (h : s.step a = some t) : Turns s t a := by
  cases a with
  | start =>
    obtain rfl := Option.some.inj h
    refine .stays _ rfl rfl fun j => ?_
    unfold Plays
    dsimp only
    rw [List.getElem?_append]
    split
    · rfl
    · next hout =>
      rw [List.getElem?_eq_none (Nat.le_of_not_lt hout)]
      refine iff_of_false (fun hin => ?_) (by simp)
      have heq := List.mem_singleton.mp (List.mem_of_getElem? hin)
      cases heq
  | openDecoder i ok =>
    simp only [AudioDevice.step] at h
    split at h
    · next hp =>
      obtain rfl := Option.some.inj h
      exact setPhase_turns hp (by simp) (by cases ok <;> simp) _
    · cases h
  | openDevice i answer =>
    simp only [AudioDevice.step] at h
    split at h
    · next hp => exact openLocked_turns hp h
    · cases h
  | addChannel i =>
    simp only [AudioDevice.step] at h
    split at h
    · next hp =>
      obtain rfl := Option.some.inj h
      refine .joins i rfl rfl fun j => ?_
      have hset := plays_setPhase (s := s) (j := j) (q := .playing) hp
      refine hset.trans ?_
      by_cases hji : j = i
      · rw [if_pos hji]
        exact iff_of_true rfl (.inl hji)
      · rw [if_neg hji]
        exact (or_iff_right hji).symm
    · cases h
  | beginClose i => exact beginClose_turns h
  | endClose i =>
    simp only [AudioDevice.step] at h
    split at h
    · next hp =>
      obtain rfl := Option.some.inj h
      exact closeLocked_turns hp (by simp)
    · cases h
  | callback =>
    obtain ⟨m, rest, hchan, rfl⟩ := popMessage_cases h
    exact .reads m hchan rfl fun _ => Iff.rfl

/-! ## What is heard -/

theorem Turns.nodup (h : Turns s t a) (hs : s.audioChannels.Nodup) : t.audioChannels.Nodup := by
  cases h with
  | stays _ hchannels => rwa [hchannels]
  | reads m _ hchannels =>
    rw [hchannels]
    exact nodup_post hs _
  | joins i hchannels => rwa [hchannels]
  | leaves i hchannels => rwa [hchannels]
  | clears i _ hchannels =>
    rw [hchannels]
    exact List.nodup_nil

/-- A step moves `heard` as it moves who plays, but for a close that clears the channels. -/
theorem Turns.heard (h : Turns s t a) (hs : s.audioChannels.Nodup) :
    (∀ j, (j ∈ t.heard ↔ j ∈ s.heard) ∧ (t.Plays j ↔ s.Plays j)) ∨
      (∃ i, ∀ j, (j ∈ t.heard ↔ j = i ∨ j ∈ s.heard) ∧ (t.Plays j ↔ j = i ∨ s.Plays j)) ∨
      (∃ i, ∀ j, (j ∈ t.heard ↔ j ≠ i ∧ j ∈ s.heard) ∧ (t.Plays j ↔ j ≠ i ∧ s.Plays j)) ∨
      (∃ i, a = .endClose i) ∧ t.audioChannleCount = 0 ∧ t.heard ⊆ s.heard ∧
        ∀ j, t.Plays j ↔ s.Plays j := by
  unfold AudioDevice.heard
  cases h with
  | stays _ hchannels hchan hplays =>
    rw [hchannels, hchan]
    exact .inl fun j => ⟨Iff.rfl, hplays j⟩
  | reads m hchan hchannels hplays =>
    rw [hchannels, hchan]
    exact .inl fun j => ⟨Iff.rfl, hplays j⟩
  | joins i hchannels hchan hplays =>
    rw [hchannels, hchan, List.map_append]
    exact .inr (.inl ⟨i, fun j => ⟨mem_replay_joins, hplays j⟩⟩)
  | leaves i hchannels hchan hplays =>
    rw [hchannels, hchan, List.map_append]
    exact .inr (.inr (.inl ⟨i, fun j => ⟨mem_replay_leaves hs, hplays j⟩⟩))
  | clears i hcount hchannels hchan hplays =>
    rw [hchannels, hchan]
    refine .inr (.inr (.inr ⟨⟨i, rfl⟩, hcount, ?_, hplays⟩))
    exact replay_mono List.nodup_nil hs (List.nil_subset _)

/-- What holds in every run. -/
structure Sound (s : AudioDevice) : Prop where
  nodup : s.audioChannels.Nodup
  plays : ∀ i, i ∈ s.heard → s.Plays i

theorem sound_start : Sound {} := ⟨List.nodup_nil, fun _ hi => absurd hi List.not_mem_nil⟩

theorem Sound.step (hs : Sound s) (h : s.step a = some t) : Sound t := by
  have hturn := step_turns h
  refine ⟨hturn.nodup hs.nodup, fun i hi => ?_⟩
  rcases hturn.heard hs.nodup with hsame | ⟨k, hjoin⟩ | ⟨k, hleave⟩ | ⟨-, -, hsub, hplays⟩
  · exact (hsame i).2.mpr (hs.plays i ((hsame i).1.mp hi))
  · exact (hjoin i).2.mpr (((hjoin i).1.mp hi).imp_right (hs.plays i))
  · exact (hleave i).2.mpr (((hleave i).1.mp hi).imp_right (hs.plays i))
  · exact (hplays i).mpr (hs.plays i (hsub hi))

theorem sound_of_reach (h : Reach step {} s) : Sound s :=
  Reach.invariant h sound_start fun _ _ _ hs hstep => hs.step hstep

/-- A session that plays is counted. -/
theorem counted_of_plays (h : s.Plays i) : 0 < s.counted := counted_pos h rfl

theorem heard_of_plays (hsound : Sound s) (hcounts : t.audioChannleCount = t.counted)
    (hs : ∀ i, s.Plays i → i ∈ s.heard) (h : s.step a = some t) :
    ∀ i, t.Plays i → i ∈ t.heard := by
  intro i hi
  rcases (step_turns h).heard hsound.nodup with
    hsame | ⟨k, hjoin⟩ | ⟨k, hleave⟩ | ⟨-, hcount, -⟩
  · exact (hsame i).1.mpr (hs i ((hsame i).2.mp hi))
  · exact (hjoin i).1.mpr (((hjoin i).2.mp hi).imp_right (hs i))
  · exact (hleave i).1.mpr (((hleave i).2.mp hi).imp_right (hs i))
  · -- the count is the number of counted sessions, and one plays
    have hpos := counted_of_plays hi
    omega

theorem heard_of_counted (h : ReachIf step ClosesCounted {} s) :
    Sound s ∧ ∀ i, s.Plays i → i ∈ s.heard := by
  have hall : s.audioChannleCount = s.counted ∧ Sound s ∧ ∀ i, s.Plays i → i ∈ s.heard := by
    refine h.invariant (I := fun s => s.audioChannleCount = s.counted ∧ Sound s ∧
      ∀ i, s.Plays i → i ∈ s.heard) ⟨rfl, sound_start, fun i hi => absurd hi nofun⟩ ?_
    intro t a u hI hok hs
    obtain ⟨hcount, hsound, hplays⟩ := hI
    have hcount' := count_step hcount hok hs
    exact ⟨hcount', hsound.step hs, heard_of_plays hsound hcount' hplays hs⟩
  exact hall.2

end AudioDevice

open AudioDevice

/-- Once it has read its messages the callback has no session that does not play; it has every
one that does in a run whose closes are counted, and in any other until a close brings the count
to 0 beside it. -/
theorem channels_follow_sessions :
    (∀ s, Reach step {} s → ∀ i, i ∈ s.heard → s.Plays i) ∧
      (∀ s, ReachIf step ClosesCounted {} s → ∀ i, i ∈ s.heard ↔ s.Plays i) ∧
      ∀ s a t i, Reach step {} s → step s a = some t → i ∈ s.heard → t.Plays i → i ∉ t.heard →
        (∃ j, a = .endClose j) ∧ t.audioChannleCount = 0 := by
  refine ⟨fun s h => (sound_of_reach h).plays, fun s h i => ?_, ?_⟩
  · obtain ⟨hsound, hplays⟩ := heard_of_counted h
    exact ⟨hsound.plays i, hplays i⟩
  · intro s a t i h hs hi hplays hnot
    rcases (step_turns hs).heard (sound_of_reach h).nodup with
      hsame | ⟨k, hjoin⟩ | ⟨k, hleave⟩ | ⟨hclose, hcount, -⟩
    · exact absurd ((hsame i).1.mpr hi) hnot
    · exact absurd ((hjoin i).1.mpr (.inr hi)) hnot
    · exact absurd ((hleave i).1.mpr ⟨((hleave i).2.mp hplays).1, hi⟩) hnot
    · exact ⟨hclose, hcount⟩

/-- Two sessions, of which the first one has closed; the callback has read its first message. -/
theorem channels_follow_two_sessions :
    ∃ s : AudioDevice, s.audioChannels = [0] ∧ s.sessions = [.closed, .playing] ∧ 0 ∉ s.heard ∧
      1 ∈ s.heard := by
  obtain ⟨s, hs, hp⟩ := reach_of_any (guarded step ClosesCounted) {}
    [.start, .openDecoder 0 true, .openDevice 0 ⟨true, some (2, .f32sys)⟩, .addChannel 0, .start,
      .openDecoder 1 true, .openDevice 1 ⟨true, none⟩, .callback, .addChannel 1, .beginClose 0,
      .endClose 0]
    (fun s => s.audioChannels = [0] ∧ s.sessions = [.closed, .playing]) (by decide)
  obtain ⟨hchannels, hsessions⟩ := of_decide_eq_true hp
  have hall := channels_follow_sessions.2.1 s (reachIf_of_guarded hs)
  refine ⟨s, hchannels, hsessions, fun hheard => ?_, (hall 1).mpr ?_⟩
  · have hplays := (hall 0).mp hheard
    unfold Plays at hplays
    rw [hsessions] at hplays
    cases hplays
  · unfold Plays
    rw [hsessions]
    rfl

end VideoPlayerCore
