import Rendr.Lib.Serial
import Rendr.Wire.Dgram

/-!
# The reliable control sublayer of a datagram carrier

Control frames of a datagram carrier travel in REL frames numbered by a 32-bit cseq. The sender
keeps a copy of every unacknowledged one in a ring of eight slots and retransmits only the oldest;
the receiver dispatches them in cseq order, holds up to seven that arrived early in a ring of its
own and answers with RACKs.

The two halves are modelled as the code has them: counters are wrapping words, rings are indexed
by `cseq mod 8`, a slot holds at most `relMaxPayload` octets of a payload, an early payload is
parsed again when its turn comes. What the endpoint does with a dispatched frame is a parameter
(`Endpoint`); timers only decide when a retransmission happens, so it may happen at any time here.
The ghost field `log` records every frame passed to `relDispatch`.
-/

open Rendr.Octets Rendr.Wire

namespace Rendr.Carrier

/-- The ring slot of a cseq. -/
def relIndex (cseq : UInt32) : Fin 8 := ⟨cseq.toNat % relWindow, Nat.mod_lt _ (by decide)⟩

/-! ### Sender -/

/-- The sender's half of `relState`: the next cseq, the oldest unacknowledged one and the payload
copies of those between. -/
structure RelSend where
  next : UInt32
  una : UInt32
  slot : Fin 8 → Bytes

/-- `initSend`. -/
def RelSend.init (next : UInt32) : RelSend := ⟨next, next, fun _ => []⟩

/-- `room`: the REL frames that may still be reserved. -/
def RelSend.room (r : RelSend) : Int := (relWindow : Int) - (r.next - r.una).toNat

/-- `outstanding`. -/
def RelSend.outstanding (r : RelSend) : Bool := r.una ≠ r.next

/-- A reliable frame as a batch reserves it: everything but its cseq. -/
structure RelFrame where
  type : UInt8
  flags : UInt8
  handle : UInt32
  inner : Bytes
  deriving DecidableEq, Repr

/-- The REL a reserved frame becomes when it is stamped with its cseq. -/
def RelFrame.stamp (f : RelFrame) (cseq : UInt32) : Rel := ⟨⟨cseq, f.type, f.flags, f.handle⟩, f.inner⟩

/-- One round of `relSealLocked`'s loop: stamp, copy into the slot, advance. -/
def RelSend.sealOne (r : RelSend) (f : RelFrame) : RelSend :=
  let p := putRel (f.stamp r.next)
  { r with
    slot := Function.update r.slot (relIndex r.next) (p.take relMaxPayload)
    next := r.next + 1 }

/-- `relOnRack`: whether the RACK is a violation, else the sender's state after it. -/
def RelSend.onRack (r : RelSend) (p : Bytes) : Option RelSend :=
  match parseRack p with
  | .error _ => none
  | .ok rk =>
    if seqLess (r.next - 1) rk.cumAck then none
    else if (List.range (relWindow - 1)).any fun i =>
        rk.sack &&& (1 <<< UInt32.ofNat i) ≠ 0 ∧ !seqLess (rk.cumAck + 2 + UInt32.ofNat i) r.next
      then none
    else if !seqLess rk.cumAck r.una then some { r with una := rk.cumAck + 1 }
    else some r

/-! ### Receiver -/

/-- `relHeld`: the copy of a payload received early. -/
structure RelHeld where
  payload : Bytes
  fseq : UInt32

/-- What the trunk and the sessions behind it do with a dispatched frame: their next state and
whether they accept it. -/
structure Endpoint (σ : Type) where
  control : σ → Rel → UInt32 → σ × Bool

/-- The receiver's half of `relState`, the flag its CLOSE sets and the endpoint. -/
structure RelRecv (σ : Type) where
  cum : UInt32
  heldMask : Fin 8 → Bool
  held : Fin 8 → RelHeld
  rackDue : Bool
  peerClosed : Bool
  ep : σ
  log : List Rel

/-- Why the reader stops. -/
inductive RelViolation
  /-- A malformed REL. -/
  | malformed
  /-- A cseq beyond the window. -/
  | beyondWindow
  /-- A handshake frame after the handshake of a dedicated carrier. -/
  | handshake
  /-- A CLOSE or GOAWAY whose payload does not parse. -/
  | payload
  /-- The endpoint refused the frame. -/
  | refused
  deriving DecidableEq, Repr

variable {σ : Type}

/-- `initRecv`. -/
def RelRecv.init (cum : UInt32) (ep : σ) : RelRecv σ where
  cum := cum
  heldMask := fun _ => false
  held := fun _ => ⟨[], 0⟩
  rackDue := false
  peerClosed := false
  ep := ep
  log := []

/-- `relDispatch`: CLOSE and GOAWAY are the carrier's, everything else the endpoint's. -/
def relDispatch (E : Endpoint σ) (c : RelRecv σ) (r : Rel) (fseq : UInt32) :
    RelRecv σ × Option RelViolation :=
  let c := { c with log := c.log ++ [r] }
  if r.head.type = typeClose then
    match parseClose r.inner with
    | .error _ => (c, some .payload)
    | .ok _ => ({ c with peerClosed := true }, none)
  else if r.head.type = typeGoAway then
    match parseGoAway r.inner with
    | .error _ => (c, some .payload)
    | .ok _ => (c, none)
  else
    let (ep, ok) := E.control c.ep r fseq
    ({ c with ep := ep }, if ok then none else some .refused)

/-- `relAdvance`. -/
def relAdvance (c : RelRecv σ) (cseq : UInt32) : RelRecv σ :=
  { c with
    cum := cseq
    heldMask := Function.update c.heldMask (relIndex cseq) false
    rackDue := true }

/-- The loop of `relOnRel` over the held successors. Every round clears one of the ring's marks,
so the ring's size bounds the rounds (`relDrain_spec`). -/
def relDrain (E : Endpoint σ) : Nat → RelRecv σ → RelRecv σ × Option RelViolation
  | 0, c => (c, none)
  | fuel + 1, c =>
    if c.peerClosed then (c, none)
    else
      let next := c.cum + 1
      if !c.heldMask (relIndex next) then (c, none)
      else
        match parseRel (c.held (relIndex next)).payload with
        | .error _ => (c, some .malformed)
        | .ok r =>
          match relDispatch E c r (c.held (relIndex next)).fseq with
          | (c, some v) => (c, some v)
          | (c, none) => relDrain E fuel (relAdvance c next)

/-- The types only a handshake or a new view of a trunk carries. -/
def handshakeType (t : UInt8) : Bool := [typeOpen, typeOpenAck, typeJoin, typeJoinAck].contains t

/-- `relOnRel`: one received REL payload. -/
def relOnRel (mux : Bool) (E : Endpoint σ) (c : RelRecv σ) (payload : Bytes) (fseq : UInt32) :
    RelRecv σ × Option RelViolation :=
  match parseRel payload with
  | .error _ => (c, some .malformed)
  | .ok r =>
    let d := int32 (r.head.cseq - c.cum)
    let i := relIndex r.head.cseq
    if d ≤ 0 ∨ (d ≤ relWindow ∧ 2 ≤ d ∧ c.heldMask i = true) then ({ c with rackDue := true }, none)
    else if c.peerClosed then (c, none)
    else if relWindow < d then (c, some .beyondWindow)
    else if handshakeType r.head.type ∧ mux = false then (c, some .handshake)
    else if 2 ≤ d then
      ({ c with
          held := Function.update c.held i ⟨payload.take relMaxPayload, fseq⟩
          heldMask := Function.update c.heldMask i true
          rackDue := true }, none)
    else
      match relDispatch E c r fseq with
      | (c, some v) => (c, some v)
      | (c, none) => relDrain E relWindow (relAdvance c r.head.cseq)

/-- The sack word of the held marks, `held i` being that of `cum + 2 + i`. -/
def sackOf (held : Fin 7 → Bool) : UInt32 :=
  (List.finRange 7).foldl (fun s i => if held i then s ||| (1 <<< UInt32.ofNat i) else s) 0

/-- `rackLocked`. -/
def RelRecv.rack (c : RelRecv σ) : Rack where
  cumAck := c.cum
  sack := sackOf fun i => c.heldMask (relIndex (c.cum + 2 + UInt32.ofNat i))

lemma sackOf_bit (held : Fin 7 → Bool) (i : Fin 7) :
    (sackOf held &&& (1 <<< UInt32.ofNat i) ≠ 0) ↔ held i = true := by
  revert held i
  decide +kernel

lemma sackOf_canonical (held : Fin 7 → Bool) (c : UInt32) : Rack.Canonical ⟨c, sackOf held⟩ := by
  have h : ∀ held : Fin 7 → Bool, sackOf held &&& ~~~ rackSackMask = 0 := by decide +kernel
  exact h held

lemma relIndex_wrap (n : Nat) : (relIndex (wrap n)).val = n % 8 :=
  wrap_toNat_mod (by decide)

/-- Two of eight consecutive cseqs never share a slot. -/
lemma relIndex_wrap_inj {a b m : Nat} (ha : m ≤ a) (ha' : a < m + 8) (hb : m ≤ b)
    (hb' : b < m + 8) : relIndex (wrap a) = relIndex (wrap b) ↔ a = b := by
  rw [Fin.ext_iff, relIndex_wrap, relIndex_wrap]
  omega

end Rendr.Carrier
