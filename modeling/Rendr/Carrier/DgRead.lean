import Rendr.Lib.Run
import Rendr.Wire.Fseq
import Rendr.Wire.Preface

/-!
# The reader of a datagram carrier and its rebind challenge

`dgFrames` with what it decides about a received datagram: which frames are dispatched, when the
anti-replay window takes a forward jump (`dgJumpProof`), and the rebind challenge
(`rebindCandidate`, `onChallengePong`, `chalSendLocked`) with the candidate the transport tracks
(`udpflow.Flow`).

The reader works in steps of one frame, so that the writer's rounds and its PING records fall
anywhere between two frames of a datagram, and between the two lock sections of a retarget. Times
are nanoseconds. The REL state, the endpoints and the rest of what a frame changes are a parameter
of the model (`Env`), reached through `dgDispatch` alone.

The state carries its history: the frames dispatched, the jumps taken, the nonces drawn and
written, the challenges created and the commits.
-/

open Rendr.Octets Rendr.Wire

namespace Rendr.Carrier.Dg

export Octets (slice)
export Wire (Frame)

/-! ### The challenge -/

/-- `chalExpiry`, `chalLifeMax`, `chalSpacingMin`, `chalCommitsMax`, `chalCommitWin`. -/
def chalExpiry : Int := 2000000000
def chalLifeMax : Int := 2 * chalExpiry
def chalSpacingMin : Int := 1000000000
def chalCommitsMax : Nat := 10
def chalCommitWin : Int := 60000000000

variable {κ ρ : Type} [DecidableEq κ]

/-- `dgChallenge`, without the PONG slot. A zero time is `none`. -/
structure Chal (κ : Type) where
  active : Bool
  cand : Option κ
  nonce : UInt64
  /-- `at`. -/
  since : Int
  moved : Bool
  sentAt : Option Int
  sends : Nat
  last : Option Int
  commits : Nat → Int
  nc : Nat
  /-- The nonce of the address check; 0: none. -/
  check : UInt64

/-- `chalExpiredLocked`; it is asked of a created challenge only. -/
def Chal.expired (ch : Chal κ) (now : Int) : Bool :=
  ch.last.any (fun l => decide (chalLifeMax ≤ now - l)) ||
    (!ch.moved && decide (chalExpiry ≤ now - ch.since))

/-- A PONG with id 0 and this nonce from `src` answers the challenge in flight. -/
def Chal.answers (ch : Chal κ) (nonce : UInt64) (src : κ) (now : Int) : Bool :=
  ch.active && !ch.expired now && nonce == ch.nonce && ch.cand == some src

/-- `chalSendLocked`, given whether the resend is due (`chalResendAtLocked`); what is sent. -/
def Chal.send (ch : Chal κ) (now : Int) (due : Bool) : Chal κ × Option (κ × UInt64) :=
  if !ch.active then (ch, none)
  else if ch.expired now then ({ ch with active := false }, none)
  else if ch.sentAt.isSome && !due then (ch, none)
  else
    ({ ch with since := if ch.moved then now else ch.since, moved := false
               sends := ch.sends + 1, sentAt := some now },
      ch.cand.map fun k => (k, ch.nonce))

/-- May a challenge be created: the spacing and the commits of the last minute. -/
def Chal.mayCreate (ch : Chal κ) (now rto : Int) : Bool :=
  !ch.last.any (fun l => decide (now - l < max rto chalSpacingMin)) &&
    !(decide (chalCommitsMax ≤ ch.nc) &&
      decide (now - ch.commits (ch.nc % chalCommitsMax) < chalCommitWin))

/-- A new challenge to `src`. -/
def Chal.create (ch : Chal κ) (src : κ) (nonce : UInt64) (now : Int) : Chal κ :=
  { ch with active := true, cand := some src, nonce := nonce, since := now, moved := false
            sentAt := none, sends := 0, last := some now }

/-- The challenge in flight goes to `src` with a fresh nonce. -/
def Chal.retarget (ch : Chal κ) (src : κ) (nonce : UInt64) : Chal κ :=
  { ch with cand := some src, nonce := nonce, moved := true, sends := min ch.sends 1 }

/-! ### PING records -/

/-- `pingRecord`. -/
structure PingRec where
  id : UInt32
  nonce : UInt64
  committed : Bool
  deriving DecidableEq, Repr

/-- `pingOutstanding`: the first record of that id holds that nonce. -/
def outstanding (ps : List PingRec) (id : UInt32) (nonce : UInt64) : Bool :=
  (ps.find? (·.id == id)).any (·.nonce == nonce)

/-- The records a PONG leaves (`onPongLocked`): it removes its own and every older one; its own
stays while its write has not returned. -/
def pong (ps : List PingRec) (id : UInt32) (nonce : UInt64) : List PingRec :=
  if outstanding ps id nonce then
    match ps.dropWhile (·.id != id) with
    | [] => []
    | r :: rs => if r.committed then rs else r :: rs
  else ps

/-! ### The state -/

/-- What the reader's other parts do, over their state `ρ`. -/
structure Env (ρ : Type) where
  mux : Bool
  dialer : Bool
  /-- `dupH1`. -/
  dupH1 : Bytes → Bool
  /-- Our first REL is unacknowledged, or the writer is held. -/
  early : ρ → Bool
  /-- The fseq of the peer's CLOSE. -/
  closeFseq : ρ → Option UInt32
  /-- `dgDispatch` of every frame but a PONG; `false`: a violation. -/
  frame : ρ → Frame → Int → ρ × Bool

/-- The datagram in hand: what is left of it and the flags of `dgFrames`. -/
structure Cur (κ : Type) where
  data : Bytes
  src : κ
  /-- `ReadCandidate`. -/
  fresh : Bool
  now : Int
  advanced : Bool
  committed : Bool
  answered : Bool
  claimed : Bool
  /-- Whether the datagram proves a jump, once checked. -/
  proof : Option Bool

/-- A jump of the window: how far, and the reader's state when the proof was checked. -/
structure Jump (κ : Type) where
  dist : Nat
  /-- The octets from the datagram's first ahead frame on. -/
  data : Bytes
  src : κ
  now : Int
  pings : List PingRec
  chal : Chal κ

/-- A commit: the PONG, and the challenge it found. -/
structure Commit (κ : Type) where
  src : κ
  nonce : UInt64
  now : Int
  chal : Chal κ
  /-- The number of the challenge. -/
  num : Nat

/-- A challenge created. -/
structure Birth where
  now : Int
  rto : Int

/-- A challenge given to the transport. -/
structure Sent (κ : Type) where
  nonce : UInt64
  cand : κ
  now : Int

/-- The reader. -/
structure Rd (κ ρ : Type) where
  rwin : FseqWindow
  chal : Chal κ
  pings : List PingRec
  rest : ρ
  /-- `udpflow.Flow`: its peer and its latest candidate. -/
  peer : κ
  cand : Option κ
  closed : Bool
  /-- The reader stopped at a violation. -/
  dead : Bool
  cur : Option (Cur κ)
  /-- `rebindCandidate` between its lock sections: the source and the creation time it read. -/
  retarg : Option (κ × Option Int)
  /-- When the present datagram's jump was proven. -/
  proven : Option (Jump κ)
  /-- The fseqs the window took, and those of them dispatched. -/
  took : List UInt32
  dispatched : List UInt32
  jumps : List (Jump κ)
  drawn : List (UInt64 × κ)
  sent : List (Sent κ)
  births : List Birth
  commits : List (Commit κ)
  /-- When the latest datagram came. -/
  clock : Int

namespace Rd

/-! ### Dispatch -/

/-- `SetPeer`: the latest candidate only. -/
def setPeer (s : Rd κ ρ) (src : κ) : Option (Rd κ ρ) :=
  if s.closed || s.cand != some src then none else some { s with peer := src, cand := none }

/-- `onChallengePong`; whether it committed. The challenge is inactive between its two lock
sections, so that no round of the writer tells them from one. -/
def onChallengePong (s : Rd κ ρ) (nonce : UInt64) (src : κ) (now : Int) : Rd κ ρ × Bool :=
  if s.chal.answers nonce src now then
    let s1 := { s with chal := { s.chal with active := false } }
    match s1.setPeer src with
    | none => (s1, false)
    | some s2 =>
      ({ s2 with
          chal := { s2.chal with
            commits := Function.update s2.chal.commits (s2.chal.nc % chalCommitsMax) now
            nc := s2.chal.nc + 1 }
          commits := ⟨src, nonce, now, s.chal, s.births.length⟩ :: s.commits }, true)
  else (s, false)

/-- `chalAnswer`. -/
inductive Answer
  | none
  | committed
  | refused
  deriving DecidableEq, Repr

/-- `dgDispatch`. -/
def dispatch (E : Env ρ) (s : Rd κ ρ) (f : Frame) (c : Cur κ) : Rd κ ρ × Bool × Answer :=
  let s : Rd κ ρ := { s with dispatched := f.header.fseq :: s.dispatched }
  if f.header.type = typePong then
    match parsePing f.payload with
    | .error _ => ({ s with dead := true }, false, .none)
    | .ok p =>
      if p.id = 0 then
        if c.fresh = false ∧ s.chal.check ≠ (0 : UInt64) ∧ p.nonce = s.chal.check then
          ({ s with chal := { s.chal with check := 0 } }, true, .none)
        else
          match s.onChallengePong p.nonce c.src c.now with
          | (s', true) => (s', true, .committed)
          | (s', false) => (s', true, .refused)
      else ({ s with pings := pong s.pings p.id p.nonce }, true, .none)
  else
    match E.frame s.rest f c.now with
    | (r, true) => ({ s with rest := r }, true, .none)
    | (r, false) => ({ s with rest := r, dead := true }, false, .none)

/-! ### The proof of a jump -/

/-- `dgProves`. -/
def proves (s : Rd κ ρ) (f : Frame) (src : κ) (now : Int) : Bool :=
  f.header.type == typePong &&
    match parsePing f.payload with
    | .error _ => false
    | .ok p => if p.id ≠ 0 then outstanding s.pings p.id p.nonce else s.chal.answers p.nonce src now

/-- `dedicatedOK`. -/
def dedicatedOK (f : Frame) : Bool :=
  f.header.type != typeDetach &&
    (extension f.header.type || carrierLevel f.header.type || f.header.handle == 1)

/-- The next frame of a datagram: decoded, and one this carrier may carry. -/
def nextFrame (E : Env ρ) (data : Bytes) : Option (Frame × Bytes) :=
  match decodeFrame data with
  | .error _ => none
  | .ok (f, n) => if !E.mux && !dedicatedOK f then none else some (f, data.drop n)

/-- The frames of a datagram up to the first it cannot read; `fuel` bounds their number. -/
def framesOf (E : Env ρ) : Nat → Bytes → List Frame
  | 0, _ => []
  | k + 1, data =>
    if data = [] then []
    else
      match nextFrame E data with
      | none => []
      | some (f, rest) => f :: framesOf E k rest

/-- `dgJumpProof` of the frame at the front of `data` and those after it. -/
def jumpProof (E : Env ρ) (s : Rd κ ρ) (data : Bytes) (src : κ) (now : Int) : Bool :=
  (framesOf E data.length data).any fun f => s.proves f src now

/-! ### The loop -/

/-- `rebindCandidate`, first lock section. -/
def rebind (s : Rd κ ρ) (src : κ) (now rto : Int) (nonce : UInt64) (retarget : Bool) : Rd κ ρ :=
  if s.chal.active && !s.chal.expired now then
    if s.chal.cand == some src || !retarget then s
    else { s with retarg := some (src, s.chal.last) }
  else if s.chal.mayCreate now rto then
    { s with chal := s.chal.create src nonce now, drawn := (nonce, src) :: s.drawn
             births := ⟨now, rto⟩ :: s.births }
  else s

/-- `rebindCandidate`, second lock section, with the nonce drawn between the two. -/
def rebindLate (s : Rd κ ρ) (nonce : UInt64) : Rd κ ρ :=
  match s.retarg with
  | none => s
  | some (src, created) =>
    let s := { s with retarg := none, drawn := (nonce, src) :: s.drawn }
    if s.chal.active && s.chal.last == created && s.chal.cand != some src then
      { s with chal := s.chal.retarget src nonce }
    else s

/-- `IsPreface`. -/
def isPreface (b : Bytes) : Bool := decide (prefaceLen ≤ b.length) && slice b 0 4 == magic

/-- A datagram from `src` arrives: `popLocked` and the front of `dgFrames`. -/
def datagram (E : Env ρ) (s : Rd κ ρ) (data : Bytes) (src : κ) (now rto : Int) (nonce : UInt64) :
    Rd κ ρ :=
  if s.dead || s.cur.isSome || s.retarg.isSome then s
  else
    let fresh := decide (src ≠ s.peer)
    let s := { s with cand := if fresh then some src else s.cand, proven := none, clock := now }
    if isPreface data then
      if !E.dialer && E.dupH1 data && fresh && E.early s.rest then s.rebind src now rto nonce true
      else s
    else { s with cur := some ⟨data, src, fresh, now, false, false, false, false, none⟩ }

/-- The end of a datagram. -/
def finish (s : Rd κ ρ) (c : Cur κ) (rto : Int) (nonce : UInt64) : Rd κ ρ :=
  let s := { s with cur := none }
  if c.fresh && (c.advanced || c.claimed) && !c.committed then
    s.rebind c.src c.now rto nonce (c.advanced && !c.answered)
  else s

/-- A frame the window took, with `rest` of the datagram behind it. -/
def deliver (E : Env ρ) (s : Rd κ ρ) (f : Frame) (c : Cur κ) (rest : Bytes) : Rd κ ρ :=
  let c := { c with data := rest, advanced := true }
  let s := { s with took := f.header.fseq :: s.took }
  let late := (E.closeFseq s.rest).any fun cf => seqLess cf f.header.fseq
  if late && f.header.type != typeRack && f.header.type != typeRel then { s with cur := some c }
  else
    match s.dispatch E f c with
    | (s', false, _) => { s' with cur := none }
    | (s', true, ans) =>
      { s' with cur := some { c with committed := c.committed || ans = .committed
                                     answered := c.answered || ans = .refused } }

/-- One iteration of the loop of `dgFrames`, or the end of the datagram. -/
def frame (E : Env ρ) (s : Rd κ ρ) (rto : Int) (nonce : UInt64) : Rd κ ρ :=
  match s.cur with
  | none => s
  | some c =>
    if c.data = [] then s.finish c rto nonce
    else
      match nextFrame E c.data with
      | none => s.finish c rto nonce
      | some (f, rest) =>
        match s.rwin.accept f.header.fseq with
        | (w, .new) => deliver E { s with rwin := w } f c rest
        | (_, .ahead) =>
          let proof := c.proof.getD (s.jumpProof E c.data c.src c.now)
          let here : Jump κ := ⟨0, c.data, c.src, c.now, s.pings, s.chal⟩
          let s : Rd κ ρ := { s with proven := if c.proof.isNone then some here else s.proven }
          if proof then
            deliver E
              { s with
                rwin := s.rwin.jump f.header.fseq
                jumps := (s.proven.map fun j =>
                  { j with dist := (f.header.fseq - s.rwin.top).toNat }).toList ++ s.jumps }
              f { c with proof := some true } rest
          else { s with cur := some { c with data := rest, proof := some false, claimed := true } }
        | _ => { s with cur := some { c with data := rest } }

/-! ### Runs -/

/-- What happens to the reader. -/
inductive Ev (κ : Type)
  | datagram (data : Bytes) (src : κ) (now rto : Int) (nonce : UInt64)
  | frame (rto : Int) (nonce : UInt64)
  | rebindLate (nonce : UInt64)
  /-- A writer round: the challenge part, and whether its resend is due. -/
  | write (now : Int) (due : Bool)
  /-- A PING record is pushed, its write returned, or it is taken back unsent. -/
  | ping (id : UInt32) (nonce : UInt64)
  | pinged (id : UInt32)
  | unsent
  | close

/-- The writer's part of a round that concerns the challenge, given to `WriteDatagramTo`; the
transport refuses what is not for its latest candidate. -/
def write (s : Rd κ ρ) (now : Int) (due : Bool) : Rd κ ρ :=
  let r := s.chal.send now due
  { s with chal := r.1, sent := (r.2.map fun p => ⟨p.2, p.1, now⟩).toList ++ s.sent }

/-- One event. -/
def step (E : Env ρ) (s : Rd κ ρ) : Ev κ → Rd κ ρ
  | .datagram data src now rto nonce => s.datagram E data src now rto nonce
  | .frame rto nonce => s.frame E rto nonce
  | .rebindLate nonce => s.rebindLate nonce
  | .write now due => s.write now due
  | .ping id nonce => { s with pings := s.pings ++ [⟨id, nonce, false⟩] }
  | .pinged id =>
    { s with pings := s.pings.map fun r => if r.id = id then { r with committed := true } else r }
  | .unsent => { s with pings := s.pings.dropLast }
  | .close => { s with closed := true }

/-- A reader that expects `first`. -/
def start (first : UInt32) (peer : κ) (check : UInt64) (rest : ρ) : Rd κ ρ where
  clock := 0
  rwin := .init first
  chal := ⟨false, none, 0, 0, false, none, 0, none, fun _ => 0, 0, check⟩
  pings := []
  rest := rest
  peer := peer
  cand := none
  closed := false
  dead := false
  cur := none
  retarg := none
  proven := none
  took := []
  dispatched := []
  jumps := []
  drawn := []
  sent := []
  births := []
  commits := []

end Rd

end Rendr.Carrier.Dg
