import Rendr.Wire.Frame

/-!
# The write round of a datagram carrier

A round of a datagram carrier's writer (`dgwrite.go`) after its batch is sealed: the H2 repeat and
the rebind challenge, then the sealed frames packed into datagrams under the send budget
(`nextDatagram`) and written one by one (`writeLoop`) or through the transport's `BatchIO` in
flushes (`dgWriteFlushes`), the outcome of each datagram (`dgOutcome`), the budget shrink
(`dgShrink`), and what goes back to the sessions after a fatal outcome (`dgReturnUnsent`).

A datagram is the pair of its first frame and the frame after its last one. The transport and the
death record are functions of the calls made so far, so they answer in any way. Two fields of a
round exist for the statements only: `calls`, what each transport call was given, and `outs`, what
became of the frames; both are newest first.
-/

namespace Rendr.Carrier.DgWrite

open Wire

/-! ### Frames and packing -/

/-- A sealed frame of the batch, as the round sees it. -/
structure Frame where
  typ : UInt8
  /-- The length in its header. -/
  len : Nat
  /-- It has a chunk, which its session keeps. -/
  chunk : Bool
  /-- A view holds its handle, and the view's endpoint takes DGRAMs back. -/
  back : Bool
  deriving DecidableEq, Repr

/-- Its bytes on the wire. -/
def Frame.size (f : Frame) : Nat := frameOverhead + f.len

/-- A padded PING or PONG travels in a datagram of its own. -/
def Frame.alone (f : Frame) : Bool :=
  (f.typ == typePing || f.typ == typePong) && decide (pingFixedLen < f.len)

def Frame.isDgram (f : Frame) : Bool := f.typ == typeDgram

/-- The loop of `nextDatagram`: the frames taken and their bytes. -/
def packLoop (budget : Int) : List Frame → Nat → Nat → Nat × Nat
  | [], c, n => (c, n)
  | f :: fs, c, n =>
    if 0 < c ∧ (f.alone = true ∨ budget < (n + f.size : Nat)) then (c, n)
    else if f.alone || f.isDgram then (c + 1, n + f.size)
    else packLoop budget fs (c + 1) (n + f.size)

/-- `nextDatagram`: the end of the datagram that starts at frame `i`, and its bytes. -/
def nextDatagram (fs : List Frame) (i : Nat) (budget : Int) : Nat × Nat :=
  let r := packLoop budget (fs.drop i) 0 0
  (i + r.1, r.2)

/-- `datagramDgram`: the payload bytes of the DGRAM a datagram ends with. -/
def datagramDgram (fs : List Frame) (e : Nat) : Option Nat :=
  match fs[e - 1]? with
  | some f => if f.isDgram then some (f.len - dgramPrefixLen) else none
  | none => none

/-! ### The round -/

/-- The classes of a write error. -/
inductive Err
  /-- `ErrDatagramTooLarge`, with the largest size the transport names (0: none). -/
  | tooLarge (max : Int)
  | noise
  /-- An invalid count (`isWriteCount`). -/
  | count
  | noRebind
  | other
  deriving DecidableEq, Repr

/-- What ends the carrier. -/
inductive Fatal
  | dead
  | budgetFloor
  | batchCount
  | err (e : Err)
  deriving DecidableEq, Repr

/-- What became of a datagram's frames. -/
inductive Out
  | written
  | refused
  | noise
  /-- Given to a call that returned an invalid count. -/
  | unknown
  deriving DecidableEq, Repr

/-- The frames `first`, …, `last - 1` and what became of them. -/
structure Span where
  first : Nat
  last : Nat
  out : Out
  deriving DecidableEq, Repr

def Span.covers (sp : Span) (k : Nat) : Bool := decide (sp.first ≤ k) && decide (k < sp.last)

/-- A transport call: the datagrams it was given, how many of them it disposed of, and whether its
count was valid. -/
structure Call where
  offered : List (Nat × Nat)
  took : Nat
  valid : Bool
  deriving DecidableEq, Repr

/-- The writer's state of a round: `dgRound`, the carrier's budget and counters, and the PING. -/
structure Round where
  budget : Int
  dgBudget : Int
  txb : Nat
  datagrams : Nat
  refused : Nat
  dropped : Nat
  rackWritten : Bool
  pinged : Bool
  /-- `w.ping`, the commits of its record and its removals. -/
  ping : Bool
  commits : Nat
  removals : Nat
  fatal : Option Fatal
  /-- The first frame whose DGRAM goes back. -/
  unsent : Option Nat
  /-- The frames whose DGRAMs went back. -/
  returned : List Nat
  calls : List Call
  outs : List Span
  deriving DecidableEq, Repr

/-- What a round starts with: its frames, the frames of the PING and of the RACK, and the limits of
its flushes. -/
structure Job where
  frames : List Frame
  pingAt : Option Nat
  rackAt : Option Nat
  headroom : Nat
  arena : Nat
  maxBatch : Nat
  /-- The PING is one of the frames. -/
  ping_lt : ∀ p, pingAt = some p → p < frames.length

/-- The transport and the carrier's death record. -/
structure Net where
  dead : List Call → Bool
  /-- `WriteDatagram`. -/
  write : List Call → Nat × Nat → Option Err
  /-- `WriteDatagrams`: the count and the error. -/
  writes : List Call → List (Nat × Nat) → Int × Option Err

/-- A frame mark lies in a datagram. -/
def within (mark : Option Nat) (i e : Nat) : Bool :=
  match mark with
  | some p => decide (i ≤ p) && decide (p < e)
  | none => false

/-- The conversion to `int32`. -/
def int32 (x : Int) : Int := x.bmod (2 ^ 32)

/-- `dgShrink`: the carrier's budget after a refusal, and whether it is below the floor. -/
def dgShrink (max cur : Int) : Int × Bool :=
  if max ≤ 0 then (cur, false)
  else
    let b := if cur ≤ int32 max then cur else int32 max
    (b, decide (b < controlFloor))

/-- `commitPingLocked` with the PING's mark. -/
def Round.commitPing (rs : Round) : Round := { rs with commits := rs.commits + 1, ping := false }

/-- The frames of a datagram are disposed of. -/
def Round.note (rs : Round) (i e : Nat) (out : Out) : Round :=
  { rs with outs := ⟨i, e, out⟩ :: rs.outs }

/-- The round ends the carrier; the DGRAMs from frame `u` go back. -/
def Round.fail (rs : Round) (f : Fatal) (u : Nat) : Round :=
  { rs with fatal := some f, unsent := some u }

/-- `dgOutcome`: the result of the write of the datagram `[i, e)` in a call that ends at frame
`callEnd`; the flag says that the budget changed. -/
def dgOutcome (j : Job) (rs : Round) (i e callEnd : Nat) (err : Option Err) : Round × Bool :=
  let d := datagramDgram j.frames e
  let ping := rs.ping && within j.pingAt i e
  match err with
  | none =>
    let rs : Round := if ping then rs.commitPing else rs
    ({ rs with
        datagrams := rs.datagrams + 1
        txb := rs.txb + d.getD 0
        rackWritten := rs.rackWritten || within j.rackAt i e }.note i e .written, false)
  | some (.tooLarge max) =>
    let rs : Round := { rs with refused := rs.refused + if d.isSome then 1 else 0 }
    let rs : Round :=
      if ping then { rs with removals := rs.removals + 1, ping := false, pinged := false } else rs
    let rs := rs.note i e .refused
    let (b, floor) := dgShrink max rs.dgBudget
    if floor then ({ rs with dgBudget := b }.fail .budgetFloor e, false)
    else ({ rs with dgBudget := b, budget := b }, decide (b ≠ rs.budget))
  | some .noise =>
    let rs : Round := if ping then rs.commitPing else rs
    ({ rs with dropped := rs.dropped + 1 }.note i e .noise, false)
  | some .count => ((rs.note i callEnd .unknown).fail (.err .count) callEnd, false)
  | some err => (rs.fail (.err err) i, false)

/-- The datagrams a call of `len` datagrams disposed of, by its count and error. -/
def took (len k : Nat) : Option Err → Nat
  | none => k
  | some .count => len
  | some (.tooLarge _) | some .noise => k + 1
  | some _ => k

/-- A call returned. -/
def Round.log (rs : Round) (ds : List (Nat × Nat)) (k : Nat) (err : Option Err) : Round :=
  { rs with calls := ⟨ds, took ds.length k err, decide (err ≠ some .count)⟩ :: rs.calls }

/-- The loop of `dgWriteBatch` on a transport without `BatchIO`; `none` when the fuel is used up. -/
def writeLoop (net : Net) (j : Job) : Nat → Nat → Round → Option Round
  | fuel, i, rs =>
    if rs.fatal.isSome ∨ j.frames.length ≤ i then some rs
    else
      match fuel with
      | 0 => none
      | fuel + 1 =>
        let e := (nextDatagram j.frames i rs.budget).1
        if net.dead rs.calls then some (rs.fail .dead i)
        else
          let err := net.write rs.calls (i, e)
          let rs := rs.log [(i, e)] (if err.isNone then 1 else 0) err
          writeLoop net j fuel e (dgOutcome j rs i e e err).1

/-- The datagrams of a flush: at most `room`, as long as the arena holds them, ended by the
datagram of the PING. -/
def pack (j : Job) (budget : Int) (ping : Bool) : Nat → Bool → Nat → Nat → List (Nat × Nat)
  | 0, _, _, _ => []
  | room + 1, first, used, i =>
    if i < j.frames.length then
      let (e, n) := nextDatagram j.frames i budget
      if first = false ∧ j.arena < used + j.headroom + n then []
      else if ping && within j.pingAt i e then [(i, e)]
      else (i, e) :: pack j budget ping room false (used + j.headroom + n) e
    else []

/-- The frame after the last datagram of a list that starts at frame `a`. -/
def endOf (a : Nat) : List (Nat × Nat) → Nat
  | [] => a
  | d :: ds => endOf d.2 ds

/-- `dgReturnUnsent`: the frames from `u` on whose DGRAMs go back. -/
def dgReturnUnsent (fs : List Frame) (u : Option Nat) : List Nat :=
  match u with
  | none => []
  | some u => (List.range' u (fs.length - u)).filter fun k =>
      (fs[k]?).any fun f => f.isDgram && f.chunk && f.back

/-- The round at its start. -/
def Round.start (budget : Int) (ping : Bool) : Round where
  budget := budget
  dgBudget := budget
  txb := 0
  datagrams := 0
  refused := 0
  dropped := 0
  rackWritten := false
  pinged := ping
  ping := ping
  commits := 0
  removals := 0
  fatal := none
  unsent := none
  returned := []
  calls := []
  outs := []

/-- The end of `dgWriteBatch`: after a fatal outcome the unsent DGRAMs go back; otherwise
`commitLocked` commits a PING that is still marked. -/
def Round.close (j : Job) (rs : Round) : Round :=
  if rs.fatal.isSome then { rs with returned := dgReturnUnsent j.frames rs.unsent }
  else { (if rs.ping then rs.commitPing else rs) with returned := [] }

end Rendr.Carrier.DgWrite
