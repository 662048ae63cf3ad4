import VideoPlayerCore.Machine
import VideoPlayerCore.RingBuffer

/-!
# One producer and one consumer on a ring buffer, step by step

Every call is split at its accesses to shared memory: a load of one position, a
copy of one element, a store of one position.  What a call computes between two
accesses belongs to the step of the access before it.

    begin_write   load write_pos_ (`beginWrite`), load read_pos_ and decide (`loadRead`)
    fill, memcpy  one element at a time (`fill`, `copyIn`)
    end_write     load write_pos_ (`endWrite`), store it (`storeWrite`)

and the same for the reading side.  `published` and `obtained` are the elements
whose position stores have been executed.
-/

namespace VideoPlayerCore

open Words

/-- `write(src, frames)`, or `begin_write(frames)` / fill / `end_write(frames)`. -/
inductive WriteCall (W : Nat) (T : Type)
  | write (src : Nat → T) (frames : BitVec W)
  | zeroCopy (frames : BitVec W)

/-- `read(dst, frames)`, or `begin_read(frames)` / use / `end_read(frames)`. -/
inductive ReadCall (W : Nat)
  | read (frames : BitVec W)
  | zeroCopy (frames : BitVec W)

/-- Where the producer is; `slot` is the slot of the pointer `begin_write` returned. -/
inductive Producer (W : Nat) (T : Type)
  | idle
  | loadedWrite (call : WriteCall W T) (w : BitVec W)
  | filling (call : WriteCall W T) (slot copied : Nat)
  | ending (call : WriteCall W T) (slot : Nat) (w : BitVec W)

/-- Where the consumer is; `seen` lists what it has loaded through the pointer,
each element with its offset. -/
inductive Consumer (W : Nat) (T : Type)
  | idle
  | loadedRead (call : ReadCall W) (r : BitVec W)
  | reading (call : ReadCall W) (slot : Nat) (seen : List (Nat × T))
  | ending (call : ReadCall W) (slot : Nat) (seen : List (Nat × T)) (r : BitVec W)

structure RingState (W : Nat) (T : Type) where
  ring : AudioRingBuffer W T
  producer : Producer W T
  consumer : Consumer W T
  published : List T
  obtained : List T

inductive RingAct (W : Nat) (T : Type)
  | beginWrite (call : WriteCall W T)
  | loadRead
  | fill (i : Nat) (v : T)
  | copyIn
  | endWrite
  | storeWrite
  | beginRead (call : ReadCall W)
  | loadWrite
  | use (i : Nat)
  | copyOut
  | endRead
  | storeRead

variable {W : Nat} {T : Type}

def WriteCall.frames : WriteCall W T → BitVec W
  | .write _ n => n
  | .zeroCopy n => n

def ReadCall.frames : ReadCall W → BitVec W
  | .read n => n
  | .zeroCopy n => n

/-- `memcpy` has copied every element; a zero-copy client ends when it likes. -/
def WriteCall.full : WriteCall W T → Nat → Prop
  | .write _ n, copied => copied = n.toNat
  | .zeroCopy _, _ => True

instance : ∀ (call : WriteCall W T) (copied : Nat), Decidable (call.full copied)
  | .write _ n, copied => inferInstanceAs (Decidable (copied = n.toNat))
  | .zeroCopy _, _ => inferInstanceAs (Decidable True)

/-- What a call publishes: its source, or what the client left in the slots. -/
def WriteCall.elements (b : AudioRingBuffer W T) (slot : Nat) : WriteCall W T → List T
  | .write src n => (List.range n.toNat).map src
  | .zeroCopy n => b.window slot n

/-- What a call hands to its client: the copies, or the slots themselves. -/
def ReadCall.elements (b : AudioRingBuffer W T) (slot : Nat) (seen : List (Nat × T)) :
    ReadCall W → List T
  | .read _ => seen.map Prod.snd
  | .zeroCopy n => b.window slot n

namespace RingState

def start (b : AudioRingBuffer W T) : RingState W T :=
  { ring := b, producer := .idle, consumer := .idle, published := [], obtained := [] }

def beginWrite (s : RingState W T) (call : WriteCall W T) : Option (RingState W T) :=
  match s.producer with
  | .idle => some { s with producer := .loadedWrite call s.ring.writePos }
  | _ => none

def loadRead (s : RingState W T) : Option (RingState W T) :=
  match s.producer with
  | .loadedWrite call w =>
    match s.ring.beginWrite w s.ring.readPos call.frames with
    | none => some { s with producer := .idle }
    | some slot => some { s with producer := .filling call slot 0 }
  | _ => none

def fill (s : RingState W T) (i : Nat) (v : T) : Option (RingState W T) :=
  match s.producer with
  | .filling (.zeroCopy n) slot _ =>
    if i < n.toNat then some { s with ring := s.ring.poke (slot + i) v } else none
  | _ => none

def copyIn (s : RingState W T) : Option (RingState W T) :=
  match s.producer with
  | .filling (.write src n) slot copied =>
    if copied < n.toNat then
      some { s with
        ring := s.ring.poke (slot + copied) (src copied)
        producer := .filling (.write src n) slot (copied + 1) }
    else none
  | _ => none

def endWrite (s : RingState W T) : Option (RingState W T) :=
  match s.producer with
  | .filling call slot copied =>
    if call.full copied then some { s with producer := .ending call slot s.ring.writePos } else none
  | _ => none

def storeWrite (s : RingState W T) : Option (RingState W T) :=
  match s.producer with
  | .ending call slot w =>
    some { s with
      ring := s.ring.setWrite (s.ring.endWrite w call.frames)
      producer := .idle
      published := s.published ++ call.elements s.ring slot }
  | _ => none

def beginRead (s : RingState W T) (call : ReadCall W) : Option (RingState W T) :=
  match s.consumer with
  | .idle => some { s with consumer := .loadedRead call s.ring.readPos }
  | _ => none

def loadWrite (s : RingState W T) : Option (RingState W T) :=
  match s.consumer with
  | .loadedRead call r =>
    match s.ring.beginRead r s.ring.writePos call.frames with
    | none => some { s with consumer := .idle }
    | some slot => some { s with consumer := .reading call slot [] }
  | _ => none

def use (s : RingState W T) (i : Nat) : Option (RingState W T) :=
  match s.consumer with
  | .reading (.zeroCopy n) slot seen =>
    if i < n.toNat then
      some { s with
        consumer := .reading (.zeroCopy n) slot (seen ++ [(i, s.ring.buf (slot + i))]) }
    else none
  | _ => none

def copyOut (s : RingState W T) : Option (RingState W T) :=
  match s.consumer with
  | .reading (.read n) slot seen =>
    if seen.length < n.toNat then
      some { s with
        consumer := .reading (.read n) slot
          (seen ++ [(seen.length, s.ring.buf (slot + seen.length))]) }
    else none
  | _ => none

def endRead (s : RingState W T) : Option (RingState W T) :=
  match s.consumer with
  | .reading (.read n) slot seen =>
    if seen.length = n.toNat then
      some { s with consumer := .ending (.read n) slot seen s.ring.readPos }
    else none
  | .reading (.zeroCopy n) slot seen =>
    some { s with consumer := .ending (.zeroCopy n) slot seen s.ring.readPos }
  | _ => none

def storeRead (s : RingState W T) : Option (RingState W T) :=
  match s.consumer with
  | .ending call slot seen r =>
    some { s with
      ring := s.ring.setRead (s.ring.endRead r call.frames)
      consumer := .idle
      obtained := s.obtained ++ call.elements s.ring slot seen }
  | _ => none

def step (s : RingState W T) : RingAct W T → Option (RingState W T)
  | .beginWrite call => s.beginWrite call
  | .loadRead => s.loadRead
  | .fill i v => s.fill i v
  | .copyIn => s.copyIn
  | .endWrite => s.endWrite
  | .storeWrite => s.storeWrite
  | .beginRead call => s.beginRead call
  | .loadWrite => s.loadWrite
  | .use i => s.use i
  | .copyOut => s.copyOut
  | .endRead => s.endRead
  | .storeRead => s.storeRead

end RingState

/-- The steps of the producer; the others are the consumer's. -/
def RingAct.byProducer : RingAct W T → Prop
  | .beginWrite _ | .loadRead | .fill _ _ | .copyIn | .endWrite | .storeWrite => True
  | _ => False

namespace RingState

/-- The call this step belongs to has had a pointer from its `begin_`. -/
def granted (s : RingState W T) : RingAct W T → Prop
  | .fill _ _ | .copyIn | .endWrite | .storeWrite =>
    (∃ call slot copied, s.producer = .filling call slot copied) ∨
    (∃ call slot w, s.producer = .ending call slot w)
  | .use _ | .copyOut | .endRead | .storeRead =>
    (∃ call slot seen, s.consumer = .reading call slot seen) ∨
    (∃ call slot seen r, s.consumer = .ending call slot seen r)
  | _ => False

/-- The slots between a granted `begin_write` and the store of its `end_write`. -/
def fillSlots (s : RingState W T) : Set Nat :=
  match s.producer with
  | .filling call slot _ | .ending call slot _ => {x | slot ≤ x ∧ x < slot + call.frames.toNat}
  | _ => ∅

/-- The slots of the unread elements: those that any `begin_read` may hand out. -/
def readableSlots (s : RingState W T) : Set Nat :=
  {x | ∃ j, j < s.ring.availableRead.toNat ∧ x = (s.ring.readPos.toNat + j) % s.ring.slots}

/-- The slots the consumer holds a pointer to. -/
def heldSlots (s : RingState W T) : Set Nat :=
  match s.consumer with
  | .reading call slot _ | .ending call slot _ _ => {x | slot ≤ x ∧ x < slot + call.frames.toNat}
  | _ => ∅

/-- What the consumer has loaded through its pointer so far. -/
def seen (s : RingState W T) : List (Nat × T) :=
  match s.consumer with
  | .reading _ _ seen | .ending _ _ seen _ => seen
  | _ => []

end RingState

end VideoPlayerCore
