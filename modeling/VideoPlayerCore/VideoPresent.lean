import Mathlib.Tactic.Common
import VideoPlayerCore.Machine

/-!
# `Video::_present`

A frame is handed to `_onFrame` as it is, or converted to `_pixelFormat`.  The context of the
conversion and the frame that it writes to are kept from call to call, and made anew when size
or format change; each library call may fail.  `setPixelformat` is called from another thread,
and `_present` reads `_pixelFormat` up to five times.

    no call of setPixelformat between these reads →
      what _onFrame gets is the plain conversion of the frame             (present_matches_plain)

In any run the context is the frame's own, and the buffer has the size that the context writes;
the pixel format is what a call between the reads can spoil.
-/

namespace VideoPlayerCore

open Machine

/-- `enum AVPixelFormat`; only `AV_PIX_FMT_NONE` matters. -/
abbrev AVPixelFormat := Int

def pixFmtNone : AVPixelFormat := -1

structure Shape where
  width : Int
  height : Int
  format : AVPixelFormat
  deriving DecidableEq

/-- An `AVFrame` with a picture. -/
structure Picture (D : Type) where
  shape : Shape
  pts : Int
  duration : Int
  data : D
  deriving DecidableEq

/-- `_swsFrame`, with the shape that its buffer was allocated for. -/
structure SwsFrame (D : Type) where
  shape : Shape
  pts : Int
  duration : Int
  buffer : Option (Shape × D) := none
  deriving DecidableEq

structure SwsContext where
  src : Shape
  dst : Shape
  deriving DecidableEq

/-- What a context makes of the pixels, and what is in a new buffer. -/
structure Sws (D : Type) where
  convert : SwsContext → D → D
  fresh : D

/-- How `av_frame_get_buffer` ends; it may give up before or behind `av_frame_unref`. -/
inductive BufferAnswer
  | allocated
  | failed
  | failedUnref
  deriving DecidableEq

structure PresentAnswers where
  /-- `sws_getCachedContext` -/
  context : Bool := true
  /-- `av_frame_alloc` -/
  frame : Bool := true
  buffer : BufferAnswer := .allocated
  /-- `av_frame_make_writable` -/
  writable : Bool := true

/-- Where `_present` stands. -/
inductive PresentPc (D : Type)
  | idle
  /-- `_pixelFormat != AV_PIX_FMT_NONE` -/
  | testing (f : Picture D)
  /-- `_pixelFormat != frame->format` -/
  | comparing (f : Picture D)
  /-- `sws_getCachedContext` -/
  | caching (f : Picture D)
  /-- `if (!_swsFrame)` -/
  | allocating (f : Picture D)
  /-- the test of `_swsFrame->width`, `height` and `format` -/
  | fitting (f : Picture D)
  /-- `av_frame_unref`, and the three assignments -/
  | formatting (f : Picture D)
  /-- `av_frame_get_buffer` -/
  | buffering (f : Picture D)
  /-- `av_frame_make_writable` -/
  | unsharing (f : Picture D)
  | scaling (f : Picture D)
  /-- `_onFrame(out_frame)` -/
  | showing (f out : Picture D)
  deriving DecidableEq

/-- `_pixelFormat` may be read again. -/
def PresentPc.reads {D : Type} : PresentPc D → Bool
  | .testing _ | .comparing _ | .caching _ | .allocating _ | .fitting _ | .formatting _ => true
  | _ => false

/-- A call of `sws_scale`: the context, the frame, and what the output buffer was made for. -/
structure Scale where
  context : SwsContext
  frame : Shape
  buffer : Option Shape
  deriving DecidableEq

/-- A call of `_onFrame`: the format that was asked for, the frame, and what was handed on. -/
structure Shown (D : Type) where
  asked : AVPixelFormat
  frame : Picture D
  out : Picture D
  deriving DecidableEq

structure Presenter (D : Type) where
  pixelFormat : AVPixelFormat := pixFmtNone
  swsContext : Option SwsContext := none
  swsFrame : Option (SwsFrame D) := none
  pc : PresentPc D := .idle
  /-- `_pixelFormat` when the call began -/
  asked : AVPixelFormat := pixFmtNone
  presented : List (Picture D) := []
  scales : List Scale := []
  shown : List (Shown D) := []

inductive PresentAct (D : Type)
  | setPixelformat (value : AVPixelFormat)
  | present (f : Picture D)
  | next (answers : PresentAnswers)
  /-- `Video::close` -/
  | close

variable {D : Type}

namespace Sws

def target (f : Picture D) (format : AVPixelFormat) : Shape := { f.shape with format := format }

def contextFor (f : Picture D) (format : AVPixelFormat) : SwsContext :=
  { src := f.shape, dst := target f format }

/-- The frame is to be converted. -/
def Converts (asked : AVPixelFormat) (f : Picture D) : Prop :=
  asked ≠ pixFmtNone ∧ asked ≠ f.shape.format

instance (asked : AVPixelFormat) (f : Picture D) : Decidable (Converts asked f) :=
  inferInstanceAs (Decidable (_ ∧ _))

/-- The frame in the format that is asked for, with a context and a buffer of its own. -/
def plain (lib : Sws D) (asked : AVPixelFormat) (f : Picture D) : Picture D :=
  if Converts asked f then
    { f with shape := target f asked, data := lib.convert (contextFor f asked) f.data }
  else f

end Sws

/-- `sws_getCachedContext` -/
def getCachedContext (context : Option SwsContext) (wanted : SwsContext) (ok : Bool) :
    Option SwsContext :=
  if context = some wanted then context else if ok then some wanted else none

/-- An `AVFrame` without a picture. -/
def SwsFrame.blank : SwsFrame D :=
  { shape := { width := 0, height := 0, format := pixFmtNone }
    pts := -0x8000000000000000
    duration := 0 }

namespace Presenter

open Sws

variable (lib : Sws D) (s : Presenter D)

/-- `_present` up to its next library call. -/
def next (e : PresentAnswers) : Option (Presenter D) :=
  match s.pc with
  | .idle => none
  | .testing f =>
    some { s with pc := if s.pixelFormat ≠ pixFmtNone then .comparing f else .showing f f }
  | .comparing f =>
    some { s with pc := if s.pixelFormat ≠ f.shape.format then .caching f else .showing f f }
  | .caching f =>
    let context := getCachedContext s.swsContext (contextFor f s.pixelFormat) e.context
    some { s with
      swsContext := context, pc := if context.isSome then .allocating f else .idle }
  | .allocating f =>
    if s.swsFrame.isSome then some { s with pc := .fitting f }
    else if e.frame then some { s with swsFrame := some .blank, pc := .fitting f }
    else some { s with pc := .idle }
  | .fitting f =>
    s.swsFrame.map fun o =>
      { s with
        pc := if o.shape ≠ target f s.pixelFormat then .formatting f else .unsharing f }
  | .formatting f =>
    s.swsFrame.map fun _ =>
      { s with
        swsFrame := some { SwsFrame.blank with shape := target f s.pixelFormat }
        pc := .buffering f }
  | .buffering f =>
    s.swsFrame.map fun o =>
      match e.buffer with
      | .allocated =>
        { s with
          swsFrame := some { o with buffer := some (o.shape, lib.fresh) }, pc := .unsharing f }
      | .failed => { s with pc := .idle }
      | .failedUnref => { s with swsFrame := some .blank, pc := .idle }
  | .unsharing f =>
    -- without a buffer there is nothing to make writable
    s.swsFrame.bind fun o =>
      if e.writable then
        if o.buffer.isSome then some { s with pc := .scaling f } else none
      else some { s with pc := .idle }
  | .scaling f => do
    let context ← s.swsContext
    let o ← s.swsFrame
    let data := lib.convert context f.data
    some { s with
      scales := s.scales ++
        [{ context := context, frame := f.shape, buffer := o.buffer.map Prod.fst }]
      swsFrame := some { o with
        pts := f.pts, duration := f.duration
        buffer := o.buffer.map fun b => (b.1, data) }
      pc := .showing f { shape := o.shape, pts := f.pts, duration := f.duration, data := data } }
  | .showing f out =>
    some { s with
      shown := s.shown ++ [{ asked := s.asked, frame := f, out := out }], pc := .idle }

def step : PresentAct D → Option (Presenter D)
  | .setPixelformat value => some { s with pixelFormat := value }
  | .present f =>
    match s.pc with
    | .idle => some { s with
        pc := .testing f, asked := s.pixelFormat, presented := s.presented ++ [f] }
    | _ => none
  | .next e => s.next lib e
  | .close =>
    match s.pc with
    | .idle => some { s with swsContext := none, swsFrame := none }
    | _ => none

/-- `setPixelformat` is not called while `_pixelFormat` may be read again. -/
def Steady (s : Presenter D) : PresentAct D → Prop
  | .setPixelformat _ => s.pc.reads = false
  | _ => True

instance (s : Presenter D) : (a : PresentAct D) → Decidable (s.Steady a)
  | .setPixelformat _ => inferInstanceAs (Decidable (_ = false))
  | .present _ | .next _ | .close => .isTrue trivial

end Presenter

/-! ## One step -/

/-- The frame that `_present` was called with. -/
def PresentPc.frame : PresentPc D → Option (Picture D)
  | .idle => none
  | .testing f | .comparing f | .caching f | .allocating f | .fitting f | .formatting f
  | .buffering f | .unsharing f | .scaling f | .showing f _ => some f

/-- The context is the frame's, and its output has the size of the buffer. -/
structure Scale.Sized (c : Scale) : Prop where
  src : c.context.src = c.frame
  size : ∃ format, c.buffer = some { c.context.dst with format := format }

/-- The buffer was made for what the context writes. -/
structure Scale.Fits (c : Scale) : Prop where
  src : c.context.src = c.frame
  buffer : c.buffer = some c.context.dst

namespace Presenter

open Sws

variable {lib : Sws D} {s t : Presenter D} {a : PresentAct D} {f : Picture D} {steady : Prop}

/-- The context is the frame's; `steady` says that `_pixelFormat` is still what it was. -/
def HasContext (steady : Prop) (s : Presenter D) (f : Picture D) : Prop :=
  ∃ format, s.swsContext = some (contextFor f format) ∧
    (steady → format = s.asked ∧ Converts s.asked f)

def HasFrame (steady : Prop) (s : Presenter D) (f : Picture D) (o : SwsFrame D) : Prop :=
  s.swsFrame = some o ∧ ∃ format, o.shape = target f format ∧ (steady → format = s.asked)

/-- What holds where `_present` stands. -/
def PcRight (lib : Sws D) (steady : Prop) (s : Presenter D) : PresentPc D → Prop
  | .idle => True
  | .testing _ => steady → s.pixelFormat = s.asked
  | .comparing _ => steady → s.pixelFormat = s.asked ∧ s.asked ≠ pixFmtNone
  | .caching f => steady → s.pixelFormat = s.asked ∧ Converts s.asked f
  | .allocating f | .fitting f | .formatting f =>
    HasContext steady s f ∧ (steady → s.pixelFormat = s.asked)
  | .buffering f | .unsharing f => HasContext steady s f ∧ ∃ o, HasFrame steady s f o
  | .scaling f => HasContext steady s f ∧ ∃ o, HasFrame steady s f o ∧ o.buffer.isSome = true
  | .showing f out => steady → out = lib.plain s.asked f

structure Presents (lib : Sws D) (steady : Prop) (s : Presenter D) : Prop where
  buffer : ∀ o, s.swsFrame = some o → ∀ b, o.buffer = some b → b.1 = o.shape
  pc : PcRight lib steady s s.pc
  scales : ∀ c ∈ s.scales, c.Sized ∧ (steady → c.Fits)
  shown : steady → ∀ x ∈ s.shown, x.out = lib.plain x.asked x.frame
  order : (s.shown.map Shown.frame ++ s.pc.frame.toList).Sublist s.presented

/-- Nothing was scaled or shown. -/
theorem Presents.move (h : Presents lib steady s) (hscales : t.scales = s.scales)
    (hshown : t.shown = s.shown) (hpresented : t.presented = s.presented)
    (hframe : t.pc.frame = s.pc.frame ∨ t.pc.frame = none)
    (hbuffer : ∀ o, t.swsFrame = some o → ∀ b, o.buffer = some b → b.1 = o.shape)
    (hpc : PcRight lib steady t t.pc) : Presents lib steady t := by
  refine ⟨hbuffer, hpc, by rw [hscales]; exact h.scales, by rw [hshown]; exact h.shown, ?_⟩
  rw [hshown, hpresented]
  rcases hframe with hsame | hnone
  · rw [hsame]
    exact h.order
  · rw [hnone]
    exact ((List.nil_sublist _).append_left _).trans h.order

theorem plain_of_not_converts {asked : AVPixelFormat} (h : ¬ Converts asked f) :
    lib.plain asked f = f := if_neg h

/-- The context and the frame are those of the plain conversion. -/
theorem Presents.scaled {context : SwsContext} {o : SwsFrame D} (h : Presents lib steady s)
    (hpc : s.pc = .scaling f) (hcontext : s.swsContext = some context)
    (ho : s.swsFrame = some o) :
    (Scale.mk context f.shape (o.buffer.map Prod.fst)).Sized ∧
      (steady → (Scale.mk context f.shape (o.buffer.map Prod.fst)).Fits ∧
        Picture.mk o.shape f.pts f.duration (lib.convert context f.data) =
          lib.plain s.asked f) := by
  have hright := h.pc
  rw [hpc] at hright
  obtain ⟨⟨format, hc, hsteady⟩, o', ⟨ho', format', hshape, hsteady'⟩, hsome⟩ := hright
  obtain rfl := Option.some.inj (hcontext.symm.trans hc)
  obtain rfl := Option.some.inj (ho.symm.trans ho')
  obtain ⟨b, hb⟩ := Option.isSome_iff_exists.mp hsome
  have hsize := h.buffer o ho b hb
  rw [hb, Option.map_some, hsize, hshape]
  refine ⟨⟨rfl, format', rfl⟩, fun hst => ?_⟩
  obtain ⟨rfl, hconverts⟩ := hsteady hst
  obtain rfl := hsteady' hst
  refine ⟨⟨rfl, rfl⟩, ?_⟩
  unfold plain
  rw [if_pos hconverts]

/-- The blank frame has no buffer. -/
theorem blank_buffer {o : SwsFrame D} (h : some SwsFrame.blank = some o) (b : Shape × D)
    (hb : o.buffer = some b) : b.1 = o.shape := by
  obtain rfl := Option.some.inj h
  cases hb

theorem getCachedContext_some {context context' : Option SwsContext} {wanted : SwsContext}
    {ok : Bool} (h : getCachedContext context wanted ok = context')
    (hsome : context'.isSome = true) : context' = some wanted := by
  obtain rfl := h
  unfold getCachedContext at hsome ⊢
  split
  · next hsame => exact hsame
  · next hother =>
    rw [if_neg hother] at hsome
    split
    · rfl
    · next hfails =>
      rw [if_neg hfails] at hsome
      cases hsome

theorem Presents.next {e : PresentAnswers} (h : Presents lib steady s)
    (hs : s.next lib e = some t) : Presents lib steady t := by
  have hright := h.pc
  unfold Presenter.next at hs
  split at hs
  · cases hs
  · next f hpc =>
    obtain rfl := Option.some.inj hs
    rw [hpc] at hright
    refine h.move rfl rfl rfl ?_ h.buffer ?_
    · rw [hpc]
      dsimp only
      split <;> exact .inl rfl
    · dsimp only
      split
      · next hset => exact fun hst => ⟨hright hst, by rw [← hright hst]; exact hset⟩
      · next hunset =>
        refine fun hst => (plain_of_not_converts fun hconverts => hunset ?_).symm
        rw [hright hst]
        exact hconverts.1
  · next f hpc =>
    obtain rfl := Option.some.inj hs
    rw [hpc] at hright
    refine h.move rfl rfl rfl ?_ h.buffer ?_
    · rw [hpc]
      dsimp only
      split <;> exact .inl rfl
    · dsimp only
      split
      · next hother =>
        intro hst
        obtain ⟨hsame, hset⟩ := hright hst
        exact ⟨hsame, hset, by rw [← hsame]; exact hother⟩
      · next hequal =>
        refine fun hst => (plain_of_not_converts fun hconverts => hequal ?_).symm
        rw [(hright hst).1]
        exact hconverts.2
  · next f hpc =>
    obtain rfl := Option.some.inj hs
    rw [hpc] at hright
    cases hcontext : (getCachedContext s.swsContext (contextFor f s.pixelFormat) e.context) with
    | none => exact h.move rfl rfl rfl (.inr rfl) h.buffer trivial
    | some context =>
      have hwanted := getCachedContext_some hcontext rfl
      refine h.move rfl rfl rfl (.inl (by rw [hpc]; rfl)) h.buffer
        ⟨⟨s.pixelFormat, hwanted, hright⟩, fun hst => (hright hst).1⟩
  · next f hpc =>
    rw [hpc] at hright
    split at hs
    · obtain rfl := Option.some.inj hs
      exact h.move rfl rfl rfl (.inl (by rw [hpc]; rfl)) h.buffer hright
    · split at hs
      · obtain rfl := Option.some.inj hs
        exact h.move rfl rfl rfl (.inl (by rw [hpc]; rfl)) (fun o ho => blank_buffer ho) hright
      · obtain rfl := Option.some.inj hs
        exact h.move rfl rfl rfl (.inr rfl) h.buffer trivial
  · next f hpc =>
    obtain ⟨o, ho, rfl⟩ := Option.map_eq_some_iff.mp hs
    rw [hpc] at hright
    obtain ⟨hcontext, hread⟩ := hright
    refine h.move rfl rfl rfl ?_ h.buffer ?_
    · rw [hpc]
      dsimp only
      split <;> exact .inl rfl
    · dsimp only
      split
      · exact ⟨hcontext, hread⟩
      · next hfits => exact ⟨hcontext, o, ho, s.pixelFormat, not_not.mp hfits, hread⟩
  · next f hpc =>
    obtain ⟨o, -, rfl⟩ := Option.map_eq_some_iff.mp hs
    rw [hpc] at hright
    obtain ⟨hcontext, hread⟩ := hright
    refine h.move rfl rfl rfl (.inl (by rw [hpc]; rfl)) (fun o ho b hb => ?_)
      ⟨hcontext, _, rfl, s.pixelFormat, rfl, hread⟩
    obtain rfl := Option.some.inj ho
    cases hb
  · next f hpc =>
    obtain ⟨o, ho, rfl⟩ := Option.map_eq_some_iff.mp hs
    rw [hpc] at hright
    obtain ⟨hcontext, o', ho', hframe⟩ := hright
    obtain rfl := Option.some.inj (ho.symm.trans ho')
    cases e.buffer with
    | allocated =>
      refine h.move rfl rfl rfl (.inl (by rw [hpc]; rfl)) (fun o' ho b hb => ?_)
        ⟨hcontext, _, rfl, hframe⟩
      obtain rfl := Option.some.inj ho
      obtain rfl := Option.some.inj hb
      rfl
    | failed => exact h.move rfl rfl rfl (.inr rfl) h.buffer trivial
    | failedUnref => exact h.move rfl rfl rfl (.inr rfl) (fun o ho => blank_buffer ho) trivial
  · next f hpc =>
    obtain ⟨o, ho, hs⟩ := Option.bind_eq_some_iff.mp hs
    rw [hpc] at hright
    obtain ⟨hcontext, o', ho', hframe⟩ := hright
    obtain rfl := Option.some.inj (ho.symm.trans ho')
    split at hs
    · split at hs
      · next hsome =>
        obtain rfl := Option.some.inj hs
        exact h.move rfl rfl rfl (.inl (by rw [hpc]; rfl)) h.buffer
          ⟨hcontext, o, ⟨ho, hframe⟩, hsome⟩
      · cases hs
    · obtain rfl := Option.some.inj hs
      exact h.move rfl rfl rfl (.inr rfl) h.buffer trivial
  · next f hpc =>
    obtain ⟨context, hcontext, hs⟩ := Option.bind_eq_some_iff.mp hs
    obtain ⟨o, ho, hs⟩ := Option.bind_eq_some_iff.mp hs
    obtain rfl := Option.some.inj hs
    obtain ⟨hsized, hplain⟩ := h.scaled hpc hcontext ho
    refine ⟨fun o' ho' b hb => ?_, fun hst => (hplain hst).2, fun c hc => ?_, h.shown, ?_⟩
    · obtain rfl := Option.some.inj ho'
      obtain ⟨b', hb', rfl⟩ := Option.map_eq_some_iff.mp hb
      exact h.buffer o ho b' hb'
    · rcases List.mem_append.mp hc with hc | hc
      · exact h.scales c hc
      · rw [List.mem_singleton.mp hc]
        exact ⟨hsized, fun hst => (hplain hst).1⟩
    · have horder := h.order
      rw [hpc] at horder
      exact horder
  · next f out hpc =>
    obtain rfl := Option.some.inj hs
    rw [hpc] at hright
    refine ⟨h.buffer, trivial, h.scales, fun hst x hx => ?_, ?_⟩
    · rcases List.mem_append.mp hx with hx | hx
      · exact h.shown hst x hx
      · rw [List.mem_singleton.mp hx]
        exact hright hst
    · have horder := h.order
      rw [hpc] at horder
      simpa [PresentPc.frame] using horder

/-- Behind its last read `_present` does not depend on `_pixelFormat`. -/
theorem PcRight.setPixelformat {pc : PresentPc D} (h : PcRight lib steady s pc)
    (hread : steady → pc.reads = false) (value : AVPixelFormat) :
    PcRight lib steady { s with pixelFormat := value } pc := by
  have hnever (htrue : pc.reads = true) : ¬ steady := fun hst =>
    Bool.false_ne_true ((hread hst).symm.trans htrue)
  cases pc with
  | testing f => exact fun hst => absurd hst (hnever rfl)
  | comparing f => exact fun hst => absurd hst (hnever rfl)
  | caching f => exact fun hst => absurd hst (hnever rfl)
  | allocating f | fitting f | formatting f => exact ⟨h.1, fun hst => absurd hst (hnever rfl)⟩
  | idle => trivial
  | buffering f | unsharing f | scaling f | showing f => exact h

theorem Presents.step (h : Presents lib steady s) (hsteady : steady → s.Steady a)
    (hs : s.step lib a = some t) : Presents lib steady t := by
  cases a with
  | setPixelformat value =>
    obtain rfl := Option.some.inj hs
    exact h.move rfl rfl rfl (.inl rfl) h.buffer (h.pc.setPixelformat hsteady value)
  | present f =>
    simp only [Presenter.step] at hs
    split at hs
    · next hpc =>
      obtain rfl := Option.some.inj hs
      refine ⟨h.buffer, fun _ => rfl, h.scales, h.shown, ?_⟩
      have horder := h.order
      rw [hpc] at horder
      simpa [PresentPc.frame] using horder
    · cases hs
  | next e => exact h.next hs
  | close =>
    simp only [Presenter.step] at hs
    split at hs
    · next hpc =>
      obtain rfl := Option.some.inj hs
      refine h.move rfl rfl rfl (.inl rfl) nofun ?_
      dsimp only
      rw [hpc]
      trivial
    · cases hs

theorem presents_start : Presents lib steady {} where
  buffer _ ho := by cases ho
  pc := trivial
  scales _ hc := absurd hc List.not_mem_nil
  shown _ _ hx := absurd hx List.not_mem_nil
  order := List.Sublist.refl []

end Presenter

open Presenter

/-- With `setPixelformat` kept away from the reads of `_present`, every frame is shown as the
plain conversion to the format asked for, and every conversion has a buffer of its own shape;
in any run the buffer has the right size, and frames are shown in order and at most once. -/
theorem present_matches_plain (lib : Sws D) :
    (∀ s, ReachIf (step lib) Steady {} s →
      (∀ x ∈ s.shown, x.out = lib.plain x.asked x.frame) ∧ ∀ c ∈ s.scales, c.Fits) ∧
      ∀ s, Reach (step lib) {} s →
        (∀ c ∈ s.scales, c.Sized) ∧ (s.shown.map Shown.frame).Sublist s.presented := by
  constructor
  · intro s h
    have hall : Presents lib True s :=
      h.invariant presents_start fun _ _ _ hI hok hs => hI.step (fun _ => hok) hs
    exact ⟨hall.shown trivial, fun c hc => (hall.scales c hc).2 trivial⟩
  · intro s h
    have hall : Presents lib False s :=
      Reach.invariant h presents_start fun _ _ _ hI hs => hI.step (fun hfalse => hfalse.elim) hs
    refine ⟨fun c hc => (hall.scales c hc).1, ?_⟩
    exact (List.sublist_append_left _ _).trans hall.order

/-- A frame of two by two pixels. -/
def smallFrame (format : AVPixelFormat) : Picture Nat where
  shape := { width := 2, height := 2, format := format }
  pts := 40
  duration := 40
  data := 7

/-- A conversion is the number of the format it leads to. -/
def namingSws : Sws Nat where
  convert c _ := c.dst.format.toNat
  fresh := 0

/-- A buffer that cannot be had, one that can, and one that is used again. -/
theorem present_matches_plain_twice : ∃ s : Presenter Nat,
    s.shown.map (fun x => x.out.data) = [26, 26] ∧
      ∀ x ∈ s.shown, x.out = namingSws.plain x.asked x.frame := by
  obtain ⟨s, hreach, hend⟩ := reach_of_any (guarded (step namingSws) Steady) {}
    (.setPixelformat 26 :: .present (smallFrame 0) :: List.replicate 6 (.next {}) ++
      .next { buffer := .failedUnref } :: .present (smallFrame 0) :: List.replicate 10 (.next {}) ++
      .present (smallFrame 1) :: List.replicate 8 (.next {}))
    (fun s => s.shown.map (fun x => x.out.data) = [26, 26]) (by decide +kernel)
  exact ⟨s, of_decide_eq_true hend,
    ((present_matches_plain namingSws).1 s (reachIf_of_guarded hreach)).1⟩

/-- A call between `sws_getCachedContext` and the buffer: the context writes format 26 into a
buffer of format 8. -/
theorem format_change_misfits :
    ∃ s : Presenter Nat, Reach (step namingSws) {} s ∧ ∃ c ∈ s.scales, ¬ c.Fits := by
  obtain ⟨s, hreach, hend⟩ := reach_of_any (step namingSws) {}
    (.setPixelformat 26 :: .present (smallFrame 0) :: List.replicate 3 (.next {}) ++
      .setPixelformat 8 :: List.replicate 7 (.next {}))
    (fun s => s.scales.map (fun c => (c.context.dst.format, c.buffer.map Shape.format)) =
      [(26, some 8)]) (by decide +kernel)
  have hscales := of_decide_eq_true hend
  refine ⟨s, hreach, ?_⟩
  cases hlist : s.scales with
  | nil => simp [hlist] at hscales
  | cons c rest =>
    rw [hlist, List.map_cons] at hscales
    have hhead := (List.cons.inj hscales).1
    refine ⟨c, List.mem_cons_self .., fun hfits => ?_⟩
    rw [hfits.buffer, Option.map_some] at hhead
    have hformats := Prod.mk.inj hhead
    have hsame := Option.some.inj hformats.2
    rw [hformats.1] at hsame
    exact absurd hsame (by decide)

end VideoPlayerCore
