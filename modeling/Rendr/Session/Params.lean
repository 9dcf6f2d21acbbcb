import Mathlib.Tactic

/-!
# Session parameters and violations

The parameters a stream session is built with, normalized the way its accessors do, the window
a receiver advertises under memory pressure, and the violations a carrier can be killed for.

`advertiseWindow` computes with `float64` between its two thresholds. The three floating-point
results it looks at are a parameter (`FloatOps`), so everything proved here holds for the actual
rounding; only the integer clamps around it are computed.
-/

namespace Rendr

/-- How a session uses its lanes. -/
inductive Mode
  | selector
  | bond
  | race
  deriving DecidableEq, Repr

/-- Every member of a bond or race session is a data lane. -/
def Mode.members : Mode → Bool
  | .selector => false
  | .bond | .race => true

/-- Which side of the session this is. -/
inductive Role
  | dialer
  | passive
  deriving DecidableEq, Repr

/-- The other side. -/
def Role.peer : Role → Role
  | .dialer => .passive
  | .passive => .dialer

@[simp] lemma Role.peer_peer (r : Role) : r.peer.peer = r := by cases r <;> rfl

lemma Role.peer_ne (r : Role) : r.peer ≠ r := by cases r <;> simp [Role.peer]

/-- The send-chunk span and DATA segment cap. -/
def chunkSize : Nat := 65536

/-- The bound of one Write round. -/
def maxRound : Nat := 262144

/-- The bytes of the stream that may precede the verdict. -/
def earlyWindow : Nat := 65536

/-- The receive charge out-of-order data may fill while a passive session is pending. -/
def earlyRecvLimit : Int := 2 * earlyWindow

/-- The window floor of a receiver under memory pressure, and the re-advertisement threshold. -/
def windowFloor : Int := 65536

/-- The results of the floating-point steps of `advertiseWindow`: the two comparisons of the
budget usage `used / max` and the truncated product. -/
structure FloatOps where
  /-- `used / max ≤ 0.75` -/
  le75 : Int → Int → Bool
  /-- `used / max ≥ 1` -/
  ge1 : Int → Int → Bool
  /-- `int64(window · (1 - used / max) / 0.25)` -/
  scaled : Int → Int → Int → Int

/-- The floating-point steps without rounding. -/
def FloatOps.exact : FloatOps where
  le75 used max := decide (4 * used ≤ 3 * max)
  ge1 used max := decide (used ≥ max)
  scaled window used max := window * (max - used) * 4 / max

/-- The parameters of one side of a stream session. Non-positive configuration values select a
default, as the accessors below do. -/
structure Params where
  mode : Mode
  role : Role
  firstOffset : Nat
  cfgWindow : Int
  cfgAckEvery : Int
  cfgOffsetLimit : Nat
  /-- the carrier's DATA segment size -/
  cfgSegment : Int
  /-- the dialer returns its session before the verdict and sends data early -/
  earlyReturn : Bool
  cfgEarlyMax : Int
  fl : FloatOps
  /-- offsets are `u64` -/
  firstOffset_lt : firstOffset < 2 ^ 64
  cfgOffsetLimit_lt : cfgOffsetLimit < 2 ^ 64

namespace Params

def window (p : Params) : Int := if 0 < p.cfgWindow then p.cfgWindow else 8388608

def ackEvery (p : Params) : Nat := if 0 < p.cfgAckEvery then p.cfgAckEvery.toNat else 65536

def offsetLimit (p : Params) : Nat := if 0 < p.cfgOffsetLimit then p.cfgOffsetLimit else 2 ^ 62

/-- The largest DATA payload one frame carries. -/
def segment (p : Params) : Nat :=
  if 0 < p.cfgSegment ∧ p.cfgSegment < chunkSize then p.cfgSegment.toNat else chunkSize

/-- The dialer's bound on early data. -/
def earlyMax (p : Params) : Nat := min (max p.cfgEarlyMax 0).toNat earlyWindow

/-- The end of the early span: no DATA before the verdict may reach beyond it. -/
def earlyEnd (p : Params) : Nat := p.firstOffset + earlyWindow

lemma offsetLimit_lt (p : Params) : p.offsetLimit < 2 ^ 64 := by
  unfold offsetLimit
  split
  · exact p.cfgOffsetLimit_lt
  · decide

lemma earlyMax_le (p : Params) : p.earlyMax ≤ earlyWindow := min_le_right _ _

lemma window_pos (p : Params) : 0 < p.window := by
  unfold window
  split <;> omega

lemma segment_pos (p : Params) : 0 < p.segment := by
  unfold segment chunkSize
  split <;> omega

/-- A small configuration, for evaluating the model on concrete inputs. -/
def sample (mode : Mode) (role : Role) : Params where
  mode := mode
  role := role
  firstOffset := 0
  cfgWindow := 8
  cfgAckEvery := 0
  cfgOffsetLimit := 0
  cfgSegment := 4
  earlyReturn := true
  cfgEarlyMax := 4
  fl := .exact
  firstOffset_lt := by decide
  cfgOffsetLimit_lt := by decide

/-- The same with the default window, which leaves room for out-of-order data. -/
def wide (mode : Mode) (role : Role) : Params := { sample mode role with cfgWindow := 0 }

end Params

/-- The window a receiver may advertise at budget usage `used` of `max`: all of it up to three
quarters, nothing when the budget is used up, and a share of at least 64 KiB in between. A
non-positive `max` means no limit. -/
def advertiseWindow (fl : FloatOps) (window used max : Int) : Int :=
  if window ≤ 0 then 0
  else if max ≤ 0 then window
  else if fl.le75 used max then window
  else if fl.ge1 used max then 0
  else
    let w := fl.scaled window used max
    let w := if w < windowFloor then windowFloor else w
    if w > window then window else w

/-- The violations a session reports: the error kills the carrier that delivered the frame. -/
inductive Violation
  | dataBeforeOpen
  | dataLength
  | window
  | dataBeyondFin
  | conflict
  | raceMismatch
  | ackBeyondSent
  | ackRegression
  | finDeliveredEarly
  | finConflict
  | finBelowData
  | finBeyondWindow
  | schedOnDialer
  | unexpectedFrame
  | rxNextBeyondSent
  deriving DecidableEq, Repr

/-- The violation of a copy that differs from held bytes. -/
def Params.conflictErr (p : Params) : Violation :=
  if p.mode = .race then .raceMismatch else .conflict

end Rendr
