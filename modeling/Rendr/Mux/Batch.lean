import Rendr.Packet.Values

/-!
# The room of a writer round

What the mux control of a writer round asks of its batch (`batch.go`, `batch_dgram.go`): frame
slots, the control arena, and on a datagram trunk the REL room, of which the frames that open or
answer a handle may use all and every other reliable frame leaves `relKeep` free. A first frame on
a stream trunk travels as a body, outside the control arena.
-/

open Rendr.Octets Rendr.Wire

namespace Rendr.Mux

export Packet (First)

/-- `MaxBatchFrames`. -/
def maxBatchFrames : Nat := 64

/-- `ControlArena`. -/
def controlArena : Nat := 8192

/-- `wire.DownLen`. -/
def downLen : Nat := 4

/-- The batch of a round. -/
structure Batch where
  dgram : Bool
  /-- Frames, control bytes and REL frames placed so far. -/
  n : Nat
  ctl : Nat
  nrel : Nat
  /-- The REL frames the window still takes, and those kept for first frames. -/
  relRoom : Nat
  relKeep : Nat
  /-- DOWNs queued since the round began. -/
  downs : Nat
  deriving DecidableEq, Repr

namespace Batch

/-- `addControl`. -/
def addControl (b : Batch) (len : Nat) : Batch × Bool :=
  if maxBatchFrames ≤ b.n ∨ controlArena < b.ctl + len then (b, false)
  else ({ b with n := b.n + 1, ctl := b.ctl + len }, true)

/-- `addReliable`; `keeps`: the type leaves the room kept for first frames (`relKeeps`). -/
def addReliable (b : Batch) (keeps : Bool) (len : Nat) : Batch × Bool :=
  if b.dgram then
    if b.relRoom - (if keeps then b.relKeep else 0) ≤ b.nrel then (b, false)
    else
      match b.addControl (relHeadLen + len) with
      | (b', true) => ({ b' with nrel := b.nrel + 1 }, true)
      | (b', false) => (b', false)
  else b.addControl len

/-- `downQueue.place`: at most `k` pending DOWNs, while they fit. -/
def placeDowns : Nat → Batch → Batch
  | 0, b => b
  | k + 1, b =>
    match b.addReliable false downLen with
    | (b', true) => placeDowns k { b' with downs := b.downs - 1 }
    | (b', false) => b'

/-- `addSessionRel`: the DOWNs queued meanwhile go first. -/
def addSessionRel (b : Batch) (keeps : Bool) (len : Nat) : Batch × Bool :=
  (placeDowns b.downs b).addReliable keeps len

/-- `addFirst` of a payload of `len` bytes. -/
def addFirst (b : Batch) (len : Nat) : Batch × Bool :=
  if b.dgram then b.addSessionRel false len
  else if maxBatchFrames ≤ b.n then (b, false)
  else ({ b with n := b.n + 1 }, true)

end Batch

end Rendr.Mux
