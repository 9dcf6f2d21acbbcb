import Rendr.L4.Ingress

/-!
# The units, the gauges and the datagrams of the ingress add up

The sums over all flows and readers that the counters keep: a unit for each flow in a table and for
each goroutine that is to release one, the flows of each state, and the datagrams that wait.

* `Sums` — `flows` is the units, the gauge of a state the flows in it, and every datagram handed
  over is counted or waits.
* One lemma for each change of a flow, a reader or a table says what it does to the sums.
-/

namespace Rendr.L4

open Flow

def Phase.owes : Phase → Int
  | .owing _ => 1
  | _ => 0

def Phase.batch : Phase → List Dgram
  | .flushing b _ => b
  | _ => []

def Flow.unit (f : Flow) : Int := (if f.gone then 0 else 1) + f.phase.owes

def Flow.isIn (st : FlowState) (f : Flow) : Int := if f.state = st then 1 else 0

/-- The datagrams that wait for the flow's session, in the order of their writes. -/
def Flow.seq (f : Flow) : List Dgram :=
  f.first.toList ++ (f.phase.batch ++ (f.firstQ.toList ++ f.q))

def Flow.pend (f : Flow) : Int := f.seq.length

def Reader.owes : Reader → Int
  | .owing _ => 1
  | _ => 0

def Reader.pend : Reader → Int
  | .writing .. => 1
  | _ => 0

namespace PortForward

/-- The units in use. -/
def units (s : PortForward) : Int :=
  (s.made.map unit).sum + (s.serves.map fun v => v.reader.owes).sum

def inState (s : PortForward) (st : FlowState) : Int := (s.made.map (isIn st)).sum

/-- The datagrams that wait. -/
def pending (s : PortForward) : Int :=
  (s.made.map pend).sum + (s.serves.map fun v => v.reader.pend).sum

/-- **The sums**, with `k` datagrams in the reader's hand. -/
structure Sums (k : Int) (s : PortForward) : Prop where
  flows : s.flows = s.units
  gauge : ∀ st, st ≠ .unset → s.gauge st = s.inState st
  given : (s.next : Int) = s.c.total + s.pending + k

variable {s : PortForward} {p i : Nat} {f : Flow} {v : Serve} {k k' : Int}

/-! ### What a change does to the sums -/

lemma units_setFlow (hf : s.made[p]? = some f) (f' : Flow) :
    (s.setFlow p f').units = s.units + (f'.unit - f.unit) := by
  unfold units setFlow
  dsimp only
  rw [sum_map_set _ hf]
  omega

lemma inState_setFlow (hf : s.made[p]? = some f) (f' : Flow) (st : FlowState) :
    (s.setFlow p f').inState st = s.inState st + (f'.isIn st - f.isIn st) :=
  sum_map_set _ hf _

lemma pending_setFlow (hf : s.made[p]? = some f) (f' : Flow) :
    (s.setFlow p f').pending = s.pending + (f'.pend - f.pend) := by
  unfold pending setFlow
  dsimp only
  rw [sum_map_set _ hf]
  omega

lemma units_setServe (hv : s.serves[i]? = some v) (v' : Serve) :
    (s.setServe i v').units = s.units + (v'.reader.owes - v.reader.owes) := by
  unfold units setServe
  dsimp only
  rw [sum_map_set _ hv]
  omega

lemma pending_setServe (hv : s.serves[i]? = some v) (v' : Serve) :
    (s.setServe i v').pending = s.pending + (v'.reader.pend - v.reader.pend) := by
  unfold pending setServe
  dsimp only
  rw [sum_map_set _ hv]
  omega

/-- A bump changes the gauge only. -/
lemma bump_eq (s : PortForward) (st : FlowState) (d : Int) :
    ∃ g, s.bump st d = { s with gauge := g } ∧
      ∀ x, x ≠ .unset → g x = s.gauge x + if x = st then d else 0 := by
  unfold bump
  split
  next h =>
    refine ⟨s.gauge, rfl, fun x hx => ?_⟩
    rw [if_neg (fun he => hx (he.trans h)), Int.add_zero]
  refine ⟨_, rfl, fun x _ => ?_⟩
  by_cases hx : x = st
  · rw [hx, Function.update_self, if_pos rfl]
  · rw [Function.update_of_ne hx, if_neg hx, Int.add_zero]

/-- **What `setState` does**: the flow changes, and the gauges of the two states. -/
lemma setState_eq (s : PortForward) (p : Nat) (f : Flow) (st : FlowState) :
    ∃ g, s.setState p f st = { s.setFlow p { f with state := st } with gauge := g } ∧
      ∀ x, x ≠ .unset →
        g x = s.gauge x + (if x = f.state then -1 else 0) + if x = st then 1 else 0 := by
  obtain ⟨g1, heq1, hg1⟩ := bump_eq s f.state (-1)
  obtain ⟨g2, heq2, hg2⟩ := bump_eq { s with gauge := g1 } st 1
  refine ⟨g2, ?_, fun x hx => ?_⟩
  · unfold PortForward.setState
    rw [heq1, heq2]
    rfl
  · rw [hg2 x hx]
    dsimp only
    rw [hg1 x hx]

/-- **What `remove` does**: the flow leaves the table and its state. -/
lemma remove_eq (hgone : f.gone = false) (hv : s.serves[f.serve]? = some v) :
    ∃ g, s.remove p f =
      { s with
        gauge := g
        made := s.made.set p { f with state := .unset, gone := true }
        idx := (swapRemove v.all s.idx p).2
        serves := s.serves.set f.serve
          { v with m := v.m.filter fun e => e.1 != f.client, all := (swapRemove v.all s.idx p).1 } } ∧
      ∀ x, x ≠ .unset → g x = s.gauge x + if x = f.state then -1 else 0 := by
  obtain ⟨g, heq, hg⟩ := bump_eq s f.state (-1)
  refine ⟨g, ?_, hg⟩
  unfold remove
  rw [if_neg (by rw [hgone]; decide), hv]
  simp only [heq, setFlow, del]

/-- **What `enter` does**: a new opening flow. -/
lemma enter_eq (bare src : Nat) (d : Dgram) (hv : s.serves[i]? = some v) :
    ∃ g, s.enter bare i src d =
      { s with
        gauge := g
        made := s.made ++ [newEntry bare i src d]
        idx := Function.update s.idx s.made.length v.all.length
        serves := s.serves.set i
          { v with m := (src, s.made.length) :: v.m, all := v.all ++ [s.made.length] } } ∧
      ∀ x, x ≠ .unset → g x = s.gauge x + if x = .opening then 1 else 0 := by
  obtain ⟨g, heq, hg⟩ := bump_eq s .opening 1
  refine ⟨g, ?_, hg⟩
  unfold enter
  rw [hv]
  simp only [heq, put]

/-- The sums after `remove`. -/
lemma remove_sums {f0 : Flow} (h0 : s.made[p]? = some f0) (hgone : f.gone = false)
    (hv : s.serves[f.serve]? = some v) :
    (s.remove p f).units = s.units + (f.phase.owes - f0.unit) ∧
    (∀ st, st ≠ .unset → (s.remove p f).inState st = s.inState st - f0.isIn st) ∧
    (s.remove p f).pending = s.pending + (f.pend - f0.pend) ∧
    (∀ st, st ≠ .unset → (s.remove p f).gauge st = s.gauge st - f.isIn st) ∧
    (s.remove p f).flows = s.flows ∧ (s.remove p f).c = s.c ∧ (s.remove p f).next = s.next := by
  obtain ⟨g, heq, hg⟩ := remove_eq (p := p) hgone hv
  rw [heq]
  refine ⟨?_, fun st hst => ?_, ?_, fun st hst => ?_, rfl, rfl, rfl⟩
  · unfold units
    rw [sum_map_set _ h0, sum_map_set _ hv]
    simp only [unit, if_true]
    omega
  · unfold inState
    rw [sum_map_set _ h0]
    have : isIn st { f with state := .unset, gone := true } = 0 := if_neg (Ne.symm hst)
    omega
  · unfold pending
    rw [sum_map_set _ h0, sum_map_set _ hv]
    have : pend { f with state := .unset, gone := true } = f.pend := rfl
    dsimp only
    omega
  dsimp only
  rw [hg st hst]
  unfold isIn
  by_cases he : st = f.state
  · rw [if_pos he, if_pos he.symm]
    omega
  · rw [if_neg he, if_neg (Ne.symm he)]
    omega

/-- The sums after `enter`. -/
lemma enter_sums (bare src : Nat) (d : Dgram) (hv : s.serves[i]? = some v) :
    (s.enter bare i src d).units = s.units + 1 ∧
    (∀ st, (s.enter bare i src d).inState st = s.inState st + if st = .opening then 1 else 0) ∧
    (s.enter bare i src d).pending = s.pending + 1 ∧
    (∀ st, st ≠ .unset → (s.enter bare i src d).gauge st =
      s.gauge st + if st = .opening then 1 else 0) ∧
    (s.enter bare i src d).flows = s.flows ∧ (s.enter bare i src d).c = s.c ∧
    (s.enter bare i src d).next = s.next := by
  obtain ⟨g, heq, hg⟩ := enter_eq bare src d hv
  rw [heq]
  refine ⟨?_, fun st => ?_, ?_, hg, rfl, rfl, rfl⟩
  · unfold units
    rw [sum_map_set _ hv]
    simp [newEntry, unit, Phase.owes]
    omega
  · unfold inState
    by_cases he : st = .opening
    · simp [newEntry, isIn, he]
    · have : ¬FlowState.opening = st := fun h => he h.symm
      simp [newEntry, isIn, he, this]
  unfold pending
  rw [sum_map_set _ hv]
  have : (newEntry bare i src d).pend = 1 := by
    unfold newEntry pend seq
    by_cases hfit : 0 < d.len ∧ bare + d.len ≤ 438 <;> simp [hfit, Phase.batch]
  simp [this]
  omega

/-! ### Changes that keep the sums -/

variable {c : Counters → Counters}

/-- A flow changes but keeps its unit and its state; what leaves its queues is counted. -/
lemma Sums.setFlow (h : s.Sums k) (hf : s.made[p]? = some f) {f' : Flow}
    (hunit : f'.unit = f.unit) (hst : f'.state = f.state)
    (hp : ((c s.c).total : Int) + f'.pend + k' = s.c.total + f.pend + k) :
    ((s.setFlow p f').count c).Sums k' where
  flows := by
    have := units_setFlow hf f'
    have := h.flows
    change s.flows = (s.setFlow p f').units
    omega
  gauge st hne := by
    have := inState_setFlow hf f' st
    have h2 := h.gauge st hne
    have : f'.isIn st = f.isIn st := by unfold isIn; rw [hst]
    change s.gauge st = (s.setFlow p f').inState st
    omega
  given := by
    have := pending_setFlow hf f'
    have := h.given
    change (s.next : Int) = (c s.c).total + (s.setFlow p f').pending + k'
    omega

/-- A flow changes its state, within the table. -/
lemma Sums.setState (h : s.Sums k) (hf : s.made[p]? = some f) {f' : Flow} {st : FlowState}
    (hunit : f'.unit = f.unit) (hsame : f'.state = f.state)
    (hp : ((c s.c).total : Int) + f'.pend + k' = s.c.total + f.pend + k) :
    ((s.setState p f' st).count c).Sums k' := by
  obtain ⟨g, heq, hg⟩ := setState_eq s p f' st
  rw [heq]
  refine ⟨?_, fun x hx => ?_, ?_⟩
  · have := units_setFlow hf { f' with state := st }
    have := h.flows
    have : ({ f' with state := st } : Flow).unit = f'.unit := rfl
    change s.flows = (s.setFlow p { f' with state := st }).units
    omega
  · have h1 := inState_setFlow hf { f' with state := st } x
    have h2 := h.gauge x hx
    change g x = (s.setFlow p { f' with state := st }).inState x
    rw [hg x hx, h1, h2, hsame]
    unfold isIn
    simp only [@eq_comm _ st x, @eq_comm _ f.state x]
    split <;> split <;> omega
  have := pending_setFlow hf { f' with state := st }
  have := h.given
  have : ({ f' with state := st } : Flow).pend = f'.pend := rfl
  change (s.next : Int) = (c s.c).total + (s.setFlow p { f' with state := st }).pending + k'
  omega

/-- A reader changes; what it held is counted, and the unit it owed is released. -/
lemma Sums.setServe (h : s.Sums k) (hv : s.serves[i]? = some v) {v' : Serve}
    (howes : v'.reader.owes = v.reader.owes)
    (hp : ((c s.c).total : Int) + v'.reader.pend + k' = s.c.total + v.reader.pend + k) :
    ((s.setServe i v').count c).Sums k' where
  flows := by
    have := units_setServe hv v'
    have := h.flows
    change s.flows = (s.setServe i v').units
    omega
  gauge := h.gauge
  given := by
    have := pending_setServe hv v'
    have := h.given
    change (s.next : Int) = (c s.c).total + (s.setServe i v').pending + k'
    omega

end PortForward

end Rendr.L4
