import Rendr.Session.Moves
import Rendr.Session.SendInv

/-!
# Every function of a session as moves of the send side

One lemma for each function that touches the send part: the moves it makes. The functions that do
not touch it have an equation. A Fill is dealt with in `SendFill`, all events are put together in
`SendRun`.
-/

namespace Rendr

open List Lane

variable {l : LaneId}

namespace Session

/-! ### What leaves the send part alone -/

@[simp] lemma maybeDone_sendPart (s : Session) : s.maybeDone.sendPart = s.sendPart := by
  unfold maybeDone
  split <;> rfl

@[simp] lemma ackPlaced_sendPart (l : LaneId) (fd dn : Bool) (s : Session) :
    (s.ackPlaced l fd dn).sendPart = s.sendPart := by
  unfold ackPlaced
  have h := s.setLane_sendPart l (f := fun ln => { ln with ackSent := s.rx.ackGen }) fun _ => rfl
  generalize s.setLane l (fun ln => { ln with ackSent := s.rx.ackGen }) = s' at h
  rw [← h]
  have hdone : ∀ t : Session, (if dn && !t.doneSent then { t with doneSent := true } else t).sendPart
      = t.sendPart := fun t => by
    split <;> rfl
  simp only [hdone]
  split
  · exact maybeDone_sendPart _
  · rfl

@[simp] lemma ackDelayed_sendPart (l : LaneId) (late : Bool) (s : Session) :
    (s.ackDelayed l late).sendPart = s.sendPart := by
  unfold ackDelayed
  split <;> rfl

@[simp] lemma fillAck_sendPart (p : Params) (l : LaneId) (i : FillIn) (s : Session) (b : Batch) :
    (s.fillAck p l i b).1.sendPart = s.sendPart := by
  unfold fillAck
  simp only
  split
  · exact s.ackDelayed_sendPart l i.late
  split
  · exact s.ackDelayed_sendPart l i.late
  · rw [ackPlaced_sendPart]
    exact s.ackDelayed_sendPart l i.late

@[simp] lemma fillFin_sendPart (p : Params) (l : LaneId) (s : Session) (b : Batch) :
    (s.fillFin p l b).1.sendPart = s.sendPart := by
  unfold fillFin
  split
  · split
    · exact Session.setLane_sendPart (s.withTx _) l fun _ => rfl
    · rfl
  · rfl

@[simp] lemma openWindow_sendPart (p : Params) (used max : Int) (s : Session) :
    (s.openWindow p used max).2.sendPart = s.sendPart := by
  unfold openWindow earlyWindow
  split <;> rfl

lemma laneAdded_order (l : LaneId) (s : Session) :
    (s.laneAdded l).sendPart =
      { s.sendPart with order := if l ∈ s.order then s.order else s.order ++ [l] } := by
  unfold laneAdded
  split
  next h =>
    simp only [if_pos h]
    rfl
  next h =>
    simp only [if_neg h]
    split <;> rfl

@[simp] lemma laneAdded_lanes (l : LaneId) (s : Session) : (s.laneAdded l).lanes = s.lanes := by
  unfold laneAdded
  split
  · rfl
  · simp only
    split <;> rfl

/-! ### The requeue -/

lemma mem_addSpans {r : SpanList} {l : List Span} {x : Nat} :
    x ∈ addSpans r l ↔ x ∈ r ∨ Covers l x := by
  unfold addSpans
  induction l generalizing r with
  | nil => simp
  | cons sp t ih =>
    rw [foldl_cons, ih, SpanList.mem_add, covers_cons, or_assoc]
    rfl

lemma requeued_only {p : Params} {s : Session} {x : Nat} (hx : x ∈ s.requeued p l) :
    x ∈ s.tx.retx ∨ x ∈ (s.lanes l).infl ∧ s.tx.sBase ≤ x := by
  unfold requeued at hx
  split at hx
  · exact .inl hx
  · exact (mem_addSpans.mp hx).imp id SpanList.mem_trimBelow.mp

lemma requeued_all {p : Params} (hm : p.mode ≠ .race) {s : Session} {x : Nat}
    (hx : s.tx.sBase ≤ x) (h : x ∈ s.tx.retx ∨ x ∈ (s.lanes l).infl) : x ∈ s.requeued p l := by
  unfold requeued
  rw [if_neg fun h => hm h.1]
  exact mem_addSpans.mpr (h.imp id fun h => SpanList.mem_trimBelow.mpr ⟨h, hx⟩)

lemma requeue_sendPart (p : Params) (l : LaneId) (s : Session) :
    (s.requeue p l).sendPart =
      { s.sendPart.setLane l
          { (s.lanes l).send with
            infl := .empty
            rnext := if p.mode = .race then s.tx.sBase else (s.lanes l).rnext } with
        retx := s.requeued p l } :=
  congrArg (fun v : SendPart => { v with retx := s.requeued p l })
    (s.setLane_sendPart_eq l fun ln =>
      { ln with infl := .empty, rnext := if p.mode = .race then s.tx.sBase else ln.rnext })

end Session

/-! ### Sequences of moves -/

/-- A move between lanes, the queue and the routing variables. -/
def Mv.Routing : Mv → Prop
  | .route _ | .activate _ | .idle | .leave _ _ _ _ | .detach _ | .cursor _ => True
  | _ => False

/-- The send part moves and places nothing. -/
abbrev Session.Moved (s : Session) (p : Params) (ok : Mv → Prop) (s' : Session) : Prop :=
  Sends p ok s.sendPart [] s'.sendPart

namespace Sends

variable {p : Params} {ok : Mv → Prop} {s s' : Session} {v v' v'' : SendPart} {fs : List Frame}

/-- The send part is left alone. -/
lemma of_eq (h : s'.sendPart = s.sendPart) : s.Moved p ok s' := by
  rw [Session.Moved, h]
  exact .refl

/-- One more move, which places nothing. -/
lemma silent (h : Sends p ok v fs v') (m : Mv) (hok : ok m) (hg : m.Guard p v')
    (heq : m.apply p v' = v'') (hout : m.out v' = []) : Sends p ok v fs v'' := by
  have := Machine.Steps.move h m hok hg
  rw [show (sendMachine p).out v' m = [] from hout, append_nil,
    show (sendMachine p).apply v' m = v'' from heq] at this
  exact this

/-- One move, which places nothing. -/
lemma of_move (m : Mv) (hok : ok m) (hg : m.Guard p v) (heq : m.apply p v = v')
    (hout : m.out v = []) : Sends p ok v [] v' :=
  silent .refl m hok hg heq hout

/-- One sequence behind another, when neither places anything. -/
lemma andThen (h : Sends p ok v [] v') (h' : Sends p ok v' [] v'') : Sends p ok v [] v'' :=
  h.trans h'

end Sends

namespace Session

variable {p : Params} {ok : Mv → Prop}

section Routing

variable (hr : ∀ m : Mv, m.Routing → ok m)
include hr

lemma activate_sends {s : Session} (hl : l ∈ s.order) : s.Moved p ok (s.activate l) := by
  refine Sends.of_move (.activate l) (hr _ trivial) hl ?_ rfl
  have h := s.setLane_sendPart_eq l fun ln => { ln with data := true, state := .active }
  exact (congrArg (fun v : SendPart => { v with active := some l }) h).symm

/-- A lane that left the data set has its spans requeued. -/
lemma leave_sends (s : Session) (l : LaneId) (f : Lane → Lane) (a : Option LaneId)
    (hf : (f (s.lanes l)).send = { (s.lanes l).send with
      data := false, dead := (f (s.lanes l)).send.dead })
    (ha : a = s.active ∨ a = none) : s.Moved p ok
      ({ (s.setLane l f).requeue p l with active := a } : Session) := by
  have hl : ((s.setLane l f).lanes l).send = { (s.lanes l).send with
      data := false, dead := (f (s.lanes l)).send.dead } := by
    rw [Session.setLane_self, ← hf]
  have hinfl : ((s.setLane l f).lanes l).infl = (s.lanes l).infl := congrArg SendLane.infl hl
  refine Sends.of_move (.leave l (f (s.lanes l)).send.dead a ((s.setLane l f).requeued p l))
    (hr _ trivial) ⟨ha, fun x hx => ?_, fun hm x hx1 hx => ?_⟩ ?_ rfl
  · have hx := requeued_only hx
    rw [hinfl] at hx
    exact hx
  · refine requeued_all hm hx1 ?_
    rw [hinfl]
    exact hx
  have h := requeue_sendPart p l (s.setLane l f)
  have hrn : ((s.setLane l f).lanes l).rnext = (s.lanes l).rnext := congrArg SendLane.rnext hl
  rw [hrn, hl, setLane_sendPart_eq, SendPart.setLane_setLane] at h
  exact (congrArg (fun v : SendPart => { v with active := a }) h).symm

lemma unroute_sends (s : Session) (l : LaneId) (st : LaneState) :
    s.Moved p ok (s.unroute p l st) :=
  leave_sends hr s l (fun ln => { ln with data := false, state := st }) s.active rfl (.inl rfl)

lemma retireLane_sends (s : Session) (l : LaneId) : s.Moved p ok (s.retireLane p l) := by
  unfold retireLane
  split
  · exact .refl
  generalize hst : (if (s.lanes l).state = .dead then LaneState.dead else .retiring) = st
  have h := leave_sends (p := p) hr s l
    (fun ln => { ln with retireCalled := true, data := false, state := st })
    (if s.active = some l then none else s.active) rfl (by
      split
      · exact .inr rfl
      · exact .inl rfl)
  refine cast (congrArg (fun x : Session => s.Moved p ok x) ?_) h
  have hset : ((s.setLane l fun ln => { ln with retireCalled := true }).setLane l fun ln =>
      { ln with data := false, state := st }) =
      s.setLane l fun ln => { ln with retireCalled := true, data := false, state := st } := by
    unfold setLane
    congr 1
    funext i
    by_cases hi : i = l <;> simp [hi]
  rw [← hset]
  rfl

omit hr in
/-- A lane that leaves and another one that takes over do not interfere, outside race. -/
lemma unroute_activate (hm : p.mode ≠ .race) (s : Session) {o nl : LaneId} (hne : o ≠ nl)
    (st : LaneState) :
    (s.activate nl).unroute p o st = (s.unroute p o st).activate nl := by
  have hreq : ((s.activate nl).setLane o fun ln => { ln with data := false, state := st }).requeued
      p o = (s.setLane o fun ln => { ln with data := false, state := st }).requeued p o := by
    unfold requeued
    rw [if_neg fun h => hm h.1, if_neg fun h => hm h.1]
    simp only [activate, setLane_lanes, hne, if_true, if_false]
    rfl
  unfold unroute requeue
  rw [hreq]
  unfold activate setLane withTx
  simp only [Session.mk.injEq, true_and, and_true]
  refine funext fun i => ?_
  by_cases hi : i = o
  · simp [hi, hne]
  · simp [hi]

/-- The planned switch: the old lane's spans are requeued and the new lane takes over. -/
lemma qualitySwitch_sends (hm : p.mode ≠ .race) {s : Session} {nl : LaneId} (hl : nl ∈ s.order) :
    s.Moved p ok (s.qualitySwitch p nl) := by
  unfold qualitySwitch
  simp only
  split
  · exact activate_sends hr hl
  rename_i o ho
  split
  · exact activate_sends hr hl
  next hne =>
    rw [unroute_activate hm s hne]
    exact (unroute_sends hr s o .retiring).andThen (activate_sends hr hl)

omit hr in
lemma usable_mem {s : Session} (hu : s.usable p l = true) :
    l ∈ s.order ∧ (s.lanes l).state ≠ .dead := by
  unfold Session.usable at hu
  simp only [Bool.and_eq_true, decide_eq_true_eq] at hu
  exact hu.1.1

omit hr in
lemma chosen_usable {s : Session} {o : Option LaneId} (h : s.chosen p o = some l) :
    s.usable p l = true := by
  exact (Option.filter_eq_some_iff.mp h).2

lemma lostActive_sends (s : Session) (r : RouteIn) : s.Moved p ok (s.lostActive p r) := by
  unfold lostActive
  split
  · exact .refl
  next fb hfb => exact activate_sends hr (usable_mem (chosen_usable hfb)).1

lemma dropSender_sends (s : Session) :
    s.Moved p ok (s.dropSender p) ∧ (s.dropSender p).order = s.order := by
  unfold dropSender
  split
  · exact ⟨.refl, rfl⟩
  simp only
  split
  · exact ⟨.refl, rfl⟩
  · exact ⟨unroute_sends hr s _ _, rfl⟩

lemma passiveRouteOne_sends (s : Session) (r : RouteIn) :
    s.Moved p ok (s.passiveRouteOne p r) := by
  unfold passiveRouteOne
  split
  · exact .refl
  rename_i hne
  obtain ⟨h1, hord⟩ := dropSender_sends (p := p) hr s
  split
  · exact h1.silent .idle (hr _ trivial) trivial rfl rfl
  -- a lane that takes over was chosen among the usable ones
  rename_i l hl
  rw [hl] at hne
  have hmem : l ∈ s.order := by
    unfold passiveNext at hl
    split at hl
    next hc =>
      cases hl
      exact (usable_mem (chosen_usable hc)).1
    · split at hl
      · exact absurd hl.symm hne
      · exact (usable_mem (chosen_usable hl)).1
  exact h1.andThen (activate_sends hr (hord ▸ hmem))

/-- An attached lane becomes a data lane, in a living state. -/
lemma route_sends {s : Session} (hl : l ∈ s.order) {f : Lane → Lane}
    (hf : (f (s.lanes l)).send = { (s.lanes l).send with data := true, dead := false }) :
    s.Moved p ok (s.setLane l f) := by
  refine Sends.of_move (.route l) (hr _ trivial) hl ?_ rfl
  rw [setLane_sendPart_eq, hf]
  rfl

lemma routeMember_sends (s : Session) (want : List LaneId) (l : LaneId) :
    s.Moved p ok (s.routeMember p want l) := by
  unfold routeMember
  simp only
  split
  · exact .refl
  rename_i hw
  refine guard (unroute_sends hr s l _) fun hw2 => ?_
  -- not a data lane yet, so it is usable: attached and living
  rw [hw2] at hw
  have hd : (s.lanes l).data = false := by simpa using hw
  rw [hd, Bool.or_false, Bool.and_eq_true] at hw2
  obtain ⟨hmem, hst⟩ := usable_mem hw2.2
  refine route_sends hr hmem ?_
  unfold send
  congr 1
  split
  · rfl
  · exact decide_eq_false hst

omit hr in
/-- A fold whose steps place nothing places nothing. -/
lemma foldl_sends {f : Session → LaneId → Session}
    (hf : ∀ (s : Session) l, s.Moved p ok (f s l)) (ls : List LaneId) (s : Session) :
    s.Moved p ok (ls.foldl f s) := by
  induction ls generalizing s with
  | nil => exact .refl
  | cons l ls ih => exact (hf s l).andThen (ih (f s l))

lemma passiveRoute_sends (s : Session) (r : RouteIn) : s.Moved p ok (s.passiveRoute p r) := by
  unfold passiveRoute
  split
  · exact .refl
  · split
    · exact foldl_sends (fun s l => routeMember_sends hr s r.want l) s.order s
    · exact passiveRouteOne_sends hr s r

lemma repair_sends (s : Session) (r : RouteIn) (wasActive : Bool) :
    s.Moved p ok (s.repair p r wasActive) := by
  unfold repair
  split
  · exact passiveRoute_sends hr s r
  · split
    · exact lostActive_sends hr s r
    · exact .refl

/-- The death step up to the routing repair: the lane leaves, then it is removed. -/
lemma laneGone_sends (s : Session) (l : LaneId) (a : Option LaneId) (ha : a = s.active ∨ a = none) :
    s.Moved p ok
      ({ (s.setLane l fun ln => { ln with state := .dead, data := false }).laneGone p l with
        active := a } : Session) := by
  have h1 := leave_sends (p := p) hr s l
    (fun ln => { ln with state := .dead, data := false, finHere := false }) a rfl ha
  -- the lane dead, and dead with its FIN forgotten
  set dead := s.setLane l fun ln => { ln with state := .dead, data := false } with hdead
  set bare := s.setLane l fun ln => { ln with state := .dead, data := false, finHere := false }
    with hbare
  refine h1.silent (.detach l) (hr _ trivial) ?_ ?_ rfl
  · show ((bare.requeue p l).lanes l).send.data = false
    unfold requeue
    rw [withTx_lanes, setLane_self, hbare, setLane_self]
    rfl
  -- the same record, built in the source's order
  generalize hs1 : ({ dead with order := s.order.erase l }.withTx fun t =>
    { t with
      fin := if t.fin.lane = some l then { t.fin with lane := none } else t.fin
      rescue := if t.rescue.holder = some l then .none else t.rescue }).setLane l
    (fun ln => { ln with finHere := false }) = s1
  have hgone : (dead.laneGone p l).sendPart = (s1.requeue p l).sendPart := by
    rw [← hs1]
    unfold laneGone
    simp only
    split <;> rfl
  have hlane : s1.lanes = bare.lanes := by
    rw [← hs1, hbare, hdead]
    funext i
    unfold setLane withTx
    by_cases hi : i = l <;> simp [hi]
  have hreq : s1.requeued p l = bare.requeued p l := by
    unfold requeued raceOtherDataLane
    rw [hlane, ← hs1]
    -- the lane itself is never the other data lane
    have hany : ∀ q : LaneId → Bool, q l = false → (s.order.erase l).any q = s.order.any q :=
      fun q hq => by
        rw [Bool.eq_iff_iff, any_eq_true, any_eq_true]
        constructor
        · rintro ⟨x, hx, hqx⟩
          exact ⟨x, mem_of_mem_erase hx, hqx⟩
        rintro ⟨x, hx, hqx⟩
        have hne : x ≠ l := fun hc => by
          rw [hc, hq] at hqx
          cases hqx
        exact ⟨x, (mem_erase_of_ne hne).mpr hx, hqx⟩
    simp only [hbare, setLane_order, withTx_order]
    rw [hany _ (by simp)]
    rfl
  have hleft := requeue_sendPart p l bare
  have hright := requeue_sendPart p l s1
  rw [hreq, hlane] at hright
  have hfin : s1.tx.fin.requested = s.tx.fin.requested ∧ s1.tx.fin.off = s.tx.fin.off := by
    rw [← hs1]
    simp only [setLane_tx, withTx_tx]
    split <;> exact ⟨rfl, rfl⟩
  have hbase : s1.tx.sBase = s.tx.sBase := by rw [← hs1]; rfl
  rw [show ({ dead.laneGone p l with active := a } : Session).sendPart =
    { (dead.laneGone p l).sendPart with active := a } from rfl, hgone, hright]
  apply SendPart.ext
  case finReq => exact hfin.1.symm
  case finOff => exact hfin.2.symm
  case lanes =>
    show (bare.requeue p l).sendPart.lanes = _
    rw [hleft, hbase]
    funext i
    by_cases hi : i = l
    · simp only [SendPart.setLane, hi, if_true]
      rfl
    · simp only [SendPart.setLane, hi, if_false]
      exact congrArg (fun f => (f i).send) hlane.symm
  all_goals rw [← hs1]
  all_goals rfl

lemma laneDied_sends (s : Session) (l : LaneId) (r : RouteIn) :
    s.Moved p ok (s.laneDied p l r) := by
  refine guard .refl fun _ => ?_
  have h1 := laneGone_sends (p := p) hr s l
    (if decide (s.active = some l) then none else s.active) (by
      split
      · exact .inr rfl
      · exact .inl rfl)
  have hact : ((s.setLane l fun ln => { ln with state := .dead, data := false }).laneGone p
      l).active = s.active := by
    unfold laneGone
    simp only
    split <;> rfl
  simp only [hact]
  split
  · exact h1
  · exact h1.andThen (repair_sends hr _ r _)

lemma peerClosed_sends (s : Session) (l : LaneId) (r : RouteIn) :
    s.Moved p ok (s.peerClosed p l r) := by
  unfold peerClosed
  split
  · simp only
    split
    · exact retireLane_sends hr s l
    · exact (retireLane_sends hr s l).andThen (repair_sends hr _ r _)
  · exact .refl

/-! ### The dialer's lanes -/

/-- A lane that was just attached and lives is given its role. -/
lemma attachRole_sends {s : Session} (hl : l ∈ s.order) (hst : (s.lanes l).state ≠ .dead)
    (a : AttachIn) : s.Moved p ok (s.attachRole p l a) := by
  unfold attachRole
  split
  · split
    · refine route_sends hr hl ?_
      unfold send
      simp [hst]
    · exact retireLane_sends hr s l
  next hmem =>
  have hm : p.mode ≠ .race := fun hc => hmem (by rw [hc]; rfl)
  split
  · exact activate_sends hr hl
  · split
    · exact qualitySwitch_sends hr hm hl
    · exact retireLane_sends hr s l

omit hr in
lemma newLane_self (s : Session) (l : LaneId) (st : LaneState) :
    (s.newLane l st).lanes l = new true st := by
  unfold newLane
  rw [laneAdded_lanes, setLane_self]

omit hr in
lemma newLane_mem (s : Session) (l : LaneId) (st : LaneState) :
    l ∈ (s.newLane l st).order := by
  have h := congrArg SendPart.order
    (laneAdded_order l (s.setLane l fun _ => new true st))
  show l ∈ ((s.setLane l fun _ => new true st).laneAdded l).sendPart.order
  rw [h]
  split
  · assumption
  · simp

omit hr in
/-- A created lane's record, early or not. -/
lemma newLane_early (s : Session) (l : LaneId) {st : LaneState} (hst : st = .member ∨ st = .joining)
    (early : Bool) :
    ((s.newLane l st).setLane l fun ln => { ln with early := early }).sendPart =
      { s.sendPart.setLane l { (new true .member).send with early := early } with
        order := if l ∈ s.order then s.order else s.order ++ [l] } := by
  have hlane : ({ new true st with early := early } : Lane).send =
      { (new true .member).send with early := early } := by
    rcases hst with rfl | rfl <;> rfl
  rw [setLane_sendPart_eq, newLane_self, hlane]
  unfold newLane
  rw [laneAdded_order, setLane_sendPart_eq]
  exact congrArg (fun v : SendPart => { v with
    order := if l ∈ s.order then s.order else s.order ++ [l] })
    (SendPart.setLane_setLane s.sendPart l _ _)

omit hr in
/-- A fresh record is not early. -/
lemma newLane_plain (s : Session) (l : LaneId) {st : LaneState}
    (hst : st = .member ∨ st = .joining) :
    Mv.apply p s.sendPart (.attach l false) = (s.newLane l st).sendPart := by
  have hfresh := newLane_self s l st
  have hself : (s.newLane l st).sendPart.lanes l = (new true st).send := by
    rw [← hfresh]
    rfl
  have hset : ((s.newLane l st).setLane l fun ln => { ln with early := false }).sendPart =
      (s.newLane l st).sendPart := by
    rw [setLane_sendPart_eq, hfresh]
    exact (congrArg _ hself.symm).trans (SendPart.setLane_eq _ l)
  rw [← hset, newLane_early s l hst]
  simp only [Mv.apply, Bool.or_false]
  rfl

lemma attach_sends {s : Session} (hl : (s.lanes l).born = false) (a : AttachIn)
    (hph : ¬ p.Unborn s.phase) (hok : ok (.attach l false)) : s.Moved p ok (s.attach p l a) := by
  have h1 : s.Moved p ok (s.newLane l .member) := by
    exact Sends.of_move (.attach l false) hok ⟨hl, hph⟩ (newLane_plain s l (.inl rfl)) rfl
  have h2 := h1.andThen (Sends.of_eq ((s.newLane l .member).setLane_sendPart l
    (f := fun ln => { ln with goOwed := a.mux }) fun _ => rfl))
  have hst : (((s.newLane l .member).setLane l fun ln => { ln with goOwed := a.mux }).lanes
      l).state ≠ .dead := by
    rw [setLane_self, newLane_self]
    simp [new]
  have h3 := h2.andThen (attachRole_sends (p := p) (l := l) hr
    (s := (s.newLane l .member).setLane l fun ln => { ln with goOwed := a.mux })
    (newLane_mem s l .member) hst a)
  refine guard h3 fun hm => ?_
  refine h3.silent (.cursor l) (hr _ trivial) hm ?_ rfl
  rw [setLane_sendPart_eq]
  rfl

omit hr in
lemma earlyVerdict_sends {s : Session} (hd : (s.lanes l).data = true)
    (hb : s.tx.sBase = p.firstOffset) (hn : s.tx.sNext = p.firstOffset) {early : Bool}
    (hok : ok (.verdict l (if early then s.early.getD 0 else 0))) :
    s.Moved p ok (s.earlyVerdict p l early) := by
  unfold earlyVerdict
  simp only
  split
  · exact .refl
  generalize hk0 : s.early.getD 0 = k0 at hok
  have hkw : (if early then k0 else 0) ≤ k0 := by split <;> omega
  generalize (if early then k0 else 0) = kw at hok hkw
  have hset := Session.setLane_sendPart_eq
    (s.withTx fun t => { t with sNext := max t.sNext (p.firstOffset + k0) }) l fun ln =>
      { ln with
        infl := ln.infl.add p.firstOffset kw
        rnext := if p.mode = .race then p.firstOffset + kw else ln.rnext }
  have hg : Mv.Guard p s.sendPart (.verdict l kw) := ⟨hd, hb, hn, hk0.symm ▸ hkw⟩
  split
  next hc =>
    refine Sends.of_move (.verdict l kw) hok hg ?_ rfl
    have heq := congrArg (fun v : SendPart =>
      { v with retx := s.tx.retx.add (p.firstOffset + kw) (k0 - kw) }) hset
    refine Eq.trans ?_ heq.symm
    simp only [Mv.apply]
    rw [show s.sendPart.early.getD 0 = k0 from hk0, if_pos hc]
    rfl
  next hc =>
  refine Sends.of_move (.verdict l kw) hok hg ?_ rfl
  refine Eq.trans ?_ hset.symm
  simp only [Mv.apply]
  rw [show s.sendPart.early.getD 0 = k0 from hk0, if_neg hc]
  rfl

omit hr in
lemma laneAdded_same (l : LaneId) (s : Session) :
    (s.laneAdded l).tx = s.tx ∧ (s.laneAdded l).active = s.active ∧
      (s.laneAdded l).early = s.early := by
  unfold laneAdded
  split
  · exact ⟨rfl, rfl, rfl⟩
  · simp only
    split <;> exact ⟨rfl, rfl, rfl⟩

omit hr in
lemma attachRole_first {s : Session} {a : AttachIn} (hm : a.member = true)
    (ha : s.active = none) :
    ((s.attachRole p l a).lanes l).data = true ∧ (s.attachRole p l a).tx = s.tx ∧
      (s.attachRole p l a).early = s.early := by
  unfold attachRole
  rw [if_pos hm, if_pos ha]
  split
  · rw [setLane_self]
    exact ⟨rfl, rfl, rfl⟩
  · exact ⟨congrArg data
      (s.setLane_self l fun ln => { ln with data := true, state := .active }), rfl, rfl⟩

omit hr in
/-- The first lane of a session is a data lane, and attaching it sends nothing. -/
lemma attach_first (s : Session) (l : LaneId) {a : AttachIn} (hm : a.member = true)
    (ha : s.active = none) :
    ((s.attach p l a).lanes l).data = true ∧ (s.attach p l a).tx = s.tx ∧
      (s.attach p l a).early = s.early := by
  have h1 := laneAdded_same l (s.setLane l fun _ => new true .member)
  have h2 := attachRole_first (p := p) (l := l) (a := a)
    (s := (s.newLane l .member).setLane l fun ln => { ln with goOwed := a.mux }) hm
    (h1.2.1.trans ha)
  have h3 : ((s.newLane l .member).setLane l fun ln => { ln with goOwed := a.mux }).tx = s.tx :=
    h1.1
  unfold attach
  split
  · rw [setLane_self]
    exact ⟨h2.1, h2.2.1.trans h3, h2.2.2.trans h1.2.2⟩
  · exact ⟨h2.1, h2.2.1.trans h3, h2.2.2.trans h1.2.2⟩

lemma openOK_sends {s : Session} (ho : Opening p s.sendPart)
    (hinv : s.rx.ended = false → SendInv p s.sendPart) (hrole : p.role = .dialer) (window : Nat)
    (early : Bool) (a : AttachIn) (hat : ok (.attach l false))
    (hopen : s.rx.ended = false → s.phase = .pending → ok (.phase .opn) ∧
      ok (.limit (s.tx.sBase + window)) ∧ ok (.verdict l (if early then s.early.getD 0 else 0))) :
    s.Moved p ok (s.openOK p l window early a) := by
  unfold openOK
  split
  · exact .refl
  rename_i hc
  simp only [not_or, Bool.not_eq_true] at hc
  have h := hinv hc.1
  have hopn : ¬ p.Unborn .opn := by simp [Params.Unborn]
  by_cases hpend : s.phase = .pending
  · rw [if_pos hpend]
    obtain ⟨hph, hlim, hv⟩ := hopen hc.1 hpend
    obtain ⟨_, hact, hb, hn⟩ := h.unborn (.inr ⟨hrole, hpend⟩)
    have h1 : s.Moved p ok ({ s with phase := .opn } : Session) :=
      Sends.of_move (.phase .opn) hph ⟨hopn, by simp [sendPart, hpend]⟩ rfl rfl
    have h2 : s.Moved p ok ({ s with phase := .opn }.peerWindow window) :=
      h1.silent (.limit (s.tx.sBase + window)) hlim trivial rfl rfl
    have h3 := h2.andThen (attach_sends (p := p) hr
      (s := { s with phase := .opn }.peerWindow window) hc.2 { a with member := true } hopn hat)
    obtain ⟨hd, htx, he⟩ := attach_first (p := p) ({ s with phase := .opn }.peerWindow window) l
      (a := { a with member := true }) rfl hact
    refine h3.andThen (earlyVerdict_sends hd (htx ▸ hb) (htx ▸ hn) ?_)
    rw [he]
    exact hv
  rw [if_neg hpend]
  refine attach_sends hr hc.2 a ?_ hat
  rintro (habs | ⟨_, hp⟩)
  · exact ho.dialer hrole habs
  · exact hpend hp

omit hr in
lemma advanceSend_sends {s : Session} {front : Nat} (h1 : s.tx.sBase < front)
    (h2 : front ≤ s.tx.sNext) (hok : ok (.advance front)) : s.Moved p ok (s.advanceSend front) := by
  refine Sends.of_move (.advance front) hok ⟨h1, h2⟩ ?_ rfl
  simp only [Mv.apply]
  apply SendPart.ext
  case lanes =>
    funext i
    show (if i ∈ s.order then _ else (s.lanes i).send) =
      (if i ∈ s.order then { s.lanes i with infl := (s.lanes i).infl.trimBelow front }
        else s.lanes i).send
    split <;> rfl
  all_goals rfl

omit hr in
lemma applyRxNext_sends (s : Session) {rx : Nat} (hok : ok (.advance rx)) :
    s.Moved p ok (s.applyRxNext rx).1 ∧
      (s.applyRxNext rx).1.phase = s.phase ∧ (s.applyRxNext rx).1.adopting = s.adopting ∧
      ∀ l, ((s.applyRxNext rx).1.lanes l).born = (s.lanes l).born := by
  unfold applyRxNext
  split
  · exact ⟨.refl, rfl, rfl, fun _ => rfl⟩
  rename_i h1
  split
  next h2 =>
    refine ⟨advanceSend_sends h2.1 (Nat.le_of_not_lt h1) hok, rfl, rfl, fun l => ?_⟩
    show (if l ∈ s.order then _ else s.lanes l : Lane).born = _
    split <;> rfl
  · exact ⟨.refl, rfl, rfl, fun _ => rfl⟩

lemma joinOK_sends (s : Session) (l : LaneId) (rxNext : Nat) (a : AttachIn)
    (hat : ok (.attach l false)) (hadv : s.phase = .opn → ok (.advance rxNext)) :
    s.Moved p ok (s.joinOK p l rxNext a).1 := by
  unfold joinOK
  split
  · exact .refl
  rename_i hc
  simp only [not_or, Bool.not_eq_true, Decidable.not_not] at hc
  obtain ⟨h1, hph, _, hborn⟩ := applyRxNext_sends (p := p) s (hadv hc.2.2)
  split
  next heq =>
    rw [heq] at h1
    exact h1
  rename_i s1 heq
  rw [heq] at h1 hph hborn
  simp only at h1 hph hborn
  refine h1.andThen (attach_sends hr ((hborn l).trans hc.2.1) a ?_ hat)
  rw [hph, hc.2.2]
  simp [Params.Unborn]

end Routing

/-! ### The passive's lanes -/

lemma newPending_sends {s : Session} (hrole : p.role = .passive) (ho : Opening p s.sendPart)
    (hab : s.phase = .absent) (l : LaneId) (early : Bool) (window : Nat)
    (hat : ok (.attach l early)) (hph : ok (.phase .pending))
    (hlim : ok (.limit (s.tx.sBase + window))) : s.Moved p ok (s.newPending l early window) := by
  have hnot : ¬ p.Unborn .pending := by simp [Params.Unborn, hrole]
  obtain ⟨hborn, hopen⟩ := ho.laneless (.inl hab)
  have h1 : s.Moved p ok ({ s with phase := .pending } : Session) :=
    Sends.of_move (.phase .pending) hph ⟨hnot, by simp [sendPart, hab]⟩ rfl rfl
  have h2 : s.Moved p ok ({ s with phase := .pending }.peerWindow window) :=
    h1.silent (.limit (s.tx.sBase + window)) hlim trivial rfl rfl
  refine h2.silent (.attach l early) hat ⟨hborn l, hnot⟩ ?_ rfl
  unfold newPending
  rw [newLane_early _ l (.inr rfl)]
  have hopen : (({ s with phase := .pending }.peerWindow window).sendPart.earlyOpen || early) =
      early := by
    show (s.earlyOpen || early) = early
    rw [show s.earlyOpen = false from hopen, Bool.false_or]
  simp only [Mv.apply, hopen]
  rfl

lemma recvOpen_sends {s : Session} (hrole : p.role = .passive)
    (ho : Opening p s.sendPart) (l : LaneId) (early : Bool) (window : Nat)
    (hnew : s.phase = .absent → ok (.attach l early) ∧ ok (.phase .pending) ∧
      ok (.limit (s.tx.sBase + window)))
    (had : ok (.adopting (s.adopting ++ [(l, .open early)]))) :
    s.Moved p ok (s.recvOpen l early window) := by
  unfold recvOpen
  split <;> rename_i hphase
  · obtain ⟨hat, hph, hlim⟩ := hnew hphase
    exact newPending_sends hrole ho hphase l early window hat hph hlim
  · exact Sends.of_move (.adopting _) had (by simp [Mv.Guard, sendPart, hphase]) rfl rfl
  · exact Sends.of_move (.adopting _) had (by simp [Mv.Guard, sendPart, hphase]) rfl rfl

lemma recvJoin_sends (s : Session) (l : LaneId) (rxNext : Nat) (hadv : ok (.advance rxNext))
    (had : ok (.adopting (s.adopting ++ [(l, .join)]))) : s.Moved p ok (s.recvJoin l rxNext).1 := by
  unfold recvJoin
  split
  · exact .refl
  rename_i hc
  simp only [ne_eq, not_or, Decidable.not_not, Bool.not_eq_true] at hc
  obtain ⟨h1, hph, hadopt, _⟩ := applyRxNext_sends (p := p) s hadv
  split
  next heq =>
    rw [heq] at h1
    exact h1
  rename_i s1 heq
  rw [heq] at h1 hph hadopt
  simp only at h1 hph hadopt
  rw [← hadopt] at had
  refine h1.silent (.adopting _) had ?_ rfl rfl
  simp [Mv.Guard, sendPart, hph, hc.1]

lemma first_sends (s : Session) (l : LaneId) (fr : First) (hok : ok (.first l fr)) :
    s.Moved p ok (s.setLane l fun ln => { ln with first := some fr }) := by
  refine Sends.of_move (.first l fr) hok trivial ?_ rfl
  rw [setLane_sendPart_eq]
  rfl

lemma confirmLane_sends (w : Nat) (s : Session) (l : LaneId) (hok : ok (.first l (.openAck w))) :
    s.Moved p ok (s.confirmLane w l) := by
  unfold confirmLane
  split
  · exact .refl
  · exact first_sends s l _ hok

@[simp] lemma confirmLane_order (w : Nat) (s : Session) (l : LaneId) :
    (s.confirmLane w l).order = s.order := by
  unfold confirmLane
  split <;> rfl

lemma confirm_sends (s : Session) (used max : Int) (down : List LaneId)
    (hr : ∀ m : Mv, m.Routing → ok m) (hph : ok (.phase .opn))
    (hfirst : ∀ l w, w ≤ (s.confirm p used max down).rx.rightEdge -
        (s.confirm p used max down).rx.rRead →
      (s.earlyOpen = true → p.earlyEnd ≤ (s.confirm p used max down).rx.rightEdge) →
      ok (.first l (.openAck w))) :
    s.Moved p ok (s.confirm p used max down) := by
  by_cases hc : s.phase ≠ .pending ∨ p.role ≠ .passive ∨ s.rx.ended = true
  · unfold confirm
    rw [if_pos hc]
    exact .refl
  -- every response carries the window advertised here
  have hrx := congrArg (·.1.rx) (confirm_kept used max down hc)
  have hspec := openWindow_spec (p := p) used max
    { s with phase := .opn, rx := { s.rx with pending := false } }
  rw [show (s.confirm p used max down).rx = _ from hrx] at hfirst
  replace hfirst := fun l => hfirst l _ hspec.1 hspec.2
  unfold confirm
  rw [if_neg hc]
  simp only [ne_eq, not_or, Decidable.not_not, Bool.not_eq_true] at hc
  have h1 : s.Moved p ok
      ({ s with phase := .opn, rx := { s.rx with pending := false } } : Session) :=
    Sends.of_move (.phase .opn) hph
      ⟨by simp [Params.Unborn], by simp [sendPart, hc.1]⟩ rfl rfl
  generalize ({ s with phase := .opn, rx := { s.rx with pending := false } } : Session) = s1
    at h1 hfirst
  have h2 := h1.andThen (Sends.of_eq (s1.openWindow_sendPart p used max))
  simp only
  generalize s1.openWindow p used max = r at h2 hfirst
  have h3 := h2.andThen (foldl_sends (fun s l => confirmLane_sends r.1 s l (hfirst l)) r.2.order r.2)
  have hord : ∀ (ls : List LaneId) (s : Session), (ls.foldl (confirmLane r.1) s).order = s.order := by
    intro ls
    induction ls with
    | nil => exact fun _ => rfl
    | cons l ls ih => exact fun s => (ih _).trans (confirmLane_order r.1 s l)
  have hord := hord r.2.order r.2
  generalize r.2.order.foldl (confirmLane r.1) r.2 = s2 at h3 hord
  have hmem : ∀ q : LaneId → Bool, ∀ l ∈ r.2.order.filter q, l ∈ s2.order := fun q l hl =>
    hord ▸ (mem_filter.mp hl).1
  split
  · -- every waiting carrier becomes a data lane
    have hroute : ∀ (ls : List LaneId) (s : Session), (∀ l ∈ ls, l ∈ s.order) →
        s.Moved p ok (ls.foldl (fun s l => s.setLane l fun ln =>
          { ln with data := true, state := .member }) s) := by
      intro ls
      induction ls with
      | nil => exact fun _ _ => .refl
      | cons l ls ih =>
        intro s hls
        refine (route_sends hr (hls l (mem_cons_self ..)) rfl).andThen (ih _ fun i hi => ?_)
        exact hls i (mem_cons_of_mem _ hi)
    exact h3.andThen (hroute _ _ (hmem _))
  · split
    · exact h3
    next l hl => exact h3.andThen (activate_sends hr (hmem _ l (mem_of_mem_head? hl)))

/-- A carrier that sent an OPEN is attached, early or not. -/
lemma adoptEarly_sends {s : Session} (hb : (s.lanes l).born = false) (hph : ¬ p.Unborn s.phase)
    (early : Bool) (hat : ok (.attach l early)) :
    s.Moved p ok ((s.newLane l .joining).adoptEarly l early) := by
  refine Sends.of_move (.attach l early) hat ⟨hb, hph⟩ ?_ rfl
  cases early with
  | false => exact newLane_plain s l (.inr rfl)
  | true =>
    have h := newLane_early s l (.inr rfl) true
    simp only [Mv.apply, Bool.or_true]
    exact (congrArg (fun v : SendPart => { v with earlyOpen := true }) h).symm

lemma adopt_sends {s : Session} (hrole : p.role = .passive) (ho : Opening p s.sendPart)
    (l : LaneId) (used max : Int)
    (had : ok (.adopting (s.adopting.filter fun a => decide (a.1 ≠ l))))
    (hjoin : s.adopting.lookup l = some .join →
      ok (.attach l false) ∧ ok (.first l (.joinAck s.rx.rRead)))
    (hopen : ∀ early, s.adopting.lookup l = some (.open early) → ok (.attach l early) ∧
      ∀ w, s.phase ≠ .pending →
        w ≤ (s.adopt p l used max).rx.rightEdge - (s.adopt p l used max).rx.rRead →
        (early = true → p.earlyEnd ≤ (s.adopt p l used max).rx.rightEdge) →
        ok (.first l (.openAck w))) :
    s.Moved p ok (s.adopt p l used max) := by
  unfold adopt at hopen ⊢
  split
  · exact .refl
  rename_i k hk
  rw [hk] at hjoin hopen
  simp only at hopen
  have h1 : s.Moved p ok ({ s with
      adopting := s.adopting.filter fun a => decide (a.1 ≠ l) } : Session) :=
    Sends.of_move (.adopting _) had (fun _ a ha => (mem_filter.mp ha).1) rfl rfl
  have hph : s.phase ≠ .absent := fun hab => by
    rw [show s.adopting = [] from ho.waiting hab] at hk
    cases hk
  by_cases hc : s.rx.ended = true ∨ (s.lanes l).born = true
  · rw [if_pos hc]
    exact h1
  rw [if_neg hc] at hopen ⊢
  simp only [not_or, Bool.not_eq_true] at hc
  generalize hs1 : ({ s with adopting := s.adopting.filter fun a => decide (a.1 ≠ l) } : Session) =
    s1 at h1 hopen
  have hsame : s1.lanes = s.lanes ∧ s1.phase = s.phase ∧ s1.rx = s.rx := by
    rw [← hs1]
    exact ⟨rfl, rfl, rfl⟩
  rw [← hsame.1] at hc
  have hun : ¬ p.Unborn s1.phase := by
    rw [hsame.2.1]
    simp [Params.Unborn, hrole, hph]
  unfold adoptFirst at hopen ⊢
  cases k with
  | join =>
    obtain ⟨hat, hfirst⟩ := hjoin rfl
    have h2 := h1.silent (.attach l false) hat ⟨hc.2, hun⟩ (newLane_plain s1 l (.inr rfl)) rfl
    refine h2.andThen (first_sends _ l _ ?_)
    rw [(newLane_still (p := p) l .joining s1).quiet.read_eq, hsame.2.2]
    exact hfirst
  | «open» early =>
    obtain ⟨hat, hfirst⟩ := hopen early rfl
    have h2 := h1.andThen (adoptEarly_sends hc.2 hun early hat)
    simp only at hfirst ⊢
    have hphase : ((s1.newLane l .joining).adoptEarly l early).phase = s.phase := by
      rw [← hsame.2.1]
      have := congrArg SendPart.phase (newLane_plain (p := p) s1 l (.inr rfl))
      unfold adoptEarly
      split <;> exact this.symm
    have hearly : early = true → ((s1.newLane l .joining).adoptEarly l early).earlyOpen = true :=
      fun he => by
        rw [he]
        rfl
    generalize (s1.newLane l .joining).adoptEarly l early = s2 at h2 hfirst hphase hearly
    by_cases hpend : s2.phase = .pending
    · rw [if_pos hpend]
      exact h2
    rw [if_neg hpend] at hfirst ⊢
    have hspec := openWindow_spec (p := p) used max s2
    have h3 := h2.andThen (Sends.of_eq (s2.openWindow_sendPart p used max))
    exact h3.andThen (first_sends _ l _ (hfirst _ (hphase ▸ hpend) hspec.1 fun he =>
      hspec.2 (hearly he)))

/-! ### Acknowledgements, rounds and the rescue -/

lemma ack_sends (s : Session) (l : LaneId) (fd dn : Bool) (d w : Nat) (hla : ok (.lastAck l d))
    (hadv : ok (.advance d)) (hlim : ok (.limit (d + w))) : s.Moved p ok (s.ack l fd dn d w).1 := by
  set heard := s.setLane l fun ln => { ln with lastAck := d }
  unfold ack
  split
  · exact .refl
  rename_i hd
  split
  · exact .refl
  rename_i hreg
  split
  · exact .refl
  have h1 : s.Moved p ok heard := by
    refine Sends.of_move (.lastAck l d) hla (Nat.le_of_not_lt hreg) ?_ rfl
    rw [setLane_sendPart_eq]
    rfl
  have h2 : s.Moved p ok
      (if heard.tx.sBase < d then
        heard.advanceSend d
      else s.setLane l fun ln => { ln with lastAck := d }) := by
    exact guard h1 fun hlt => h1.andThen (advanceSend_sends hlt (Nat.le_of_not_lt hd) hadv)
  simp only
  generalize (if heard.tx.sBase < d then
      heard.advanceSend d
    else s.setLane l fun ln => { ln with lastAck := d }) = s1 at h2
  have h3 : s.Moved p ok
      (s1.withTx fun t => { t with peerLimit := max t.peerLimit (d + w) }) :=
    h2.silent (.limit (d + w)) hlim trivial rfl rfl
  generalize (s1.withTx fun t => { t with peerLimit := max t.peerLimit (d + w) }) = s2 at h3
  have hdone : ∀ t : Session, (if dn then { t with peerDone := true } else t).sendPart =
      t.sendPart := fun t => by
    split <;> rfl
  rw [Moved, hdone]
  refine h3.andThen (Sends.of_eq ?_)
  split
  · rw [maybeDone_sendPart]
    split
    · rfl
    · exact s2.setLane_sendPart _ fun _ => rfl
  · rfl

lemma commitRound_sends (s : Session) (hc : s.rx.ended = false → ok .commit)
    (hd : s.rx.ended = true → ok .drop) : s.Moved p ok s.commitRound := by
  unfold commitRound
  split
  · exact .refl
  rename_i bs hbs
  split
  next he => exact Sends.of_move .drop (hd he) trivial rfl rfl
  rename_i he
  refine Sends.of_move .commit (hc (Bool.eq_false_iff.mpr he)) (by simp [Mv.Guard, sendPart, hbs])
    ?_ rfl
  simp only [Mv.apply]
  rw [show s.sendPart.wround = some bs from hbs]
  rfl

lemma closeWrite_sends (s : Session) (hok : ok .request) : s.Moved p ok s.closeWrite := by
  unfold closeWrite
  split
  · exact .refl
  next hc => exact Sends.of_move .request hok (Bool.eq_false_iff.mpr hc) rfl rfl

lemma close_sends (s : Session) (hok : ok .request) : s.Moved p ok (s.close p) := by
  unfold close
  split
  · exact .refl
  · exact closeWrite_sends s hok

lemma writeRound_sends (s : Session) (bs : List Byte) (deadline : Bool) (grants : Nat)
    (hok : ∀ bs', ok (.reserve bs')) : s.Moved p ok (s.writeRound p bs deadline grants).1 := by
  unfold writeRound
  split
  · exact .refl
  rename_i hw
  simp only [not_or, Bool.not_eq_true, Option.isSome_eq_false_iff, Option.isNone_iff_eq_none] at hw
  split
  · exact .refl
  rename_i hcl
  simp only [not_or, Bool.not_eq_true] at hcl
  split
  · exact .refl
  split
  · exact .refl
  split
  · exact .refl
  simp only
  split
  · split
    · exact Sends.of_eq rfl
    rename_i hroom hlim
    generalize hk : min (min (bs.length : Int) (s.earlyCap p (s.sendRoom p))) maxRound = k at hlim
    have hle : (reserveChunks p grants k s.tx).1 ≤ k := min_le_left _ _
    split
    next hpos =>
      have h64 := p.offsetLimit_lt
      generalize hr : reserveChunks p grants k s.tx = r at hle hpos
      have hsame : r.2.resEnd = s.tx.resEnd ∧ ({ s with tx := r.2 } : Session).sendPart =
          s.sendPart := by
        rw [← hr]
        exact ⟨rfl, rfl⟩
      have hlen : (bs.take r.1.toNat).length = r.1.toNat := by
        rw [length_take]
        omega
      refine Sends.of_move (.reserve (bs.take r.1.toNat)) (hok _) ⟨hw.1, hcl.2, ?_, ?_⟩ ?_ rfl
      · rw [hlen]
        show s.tx.resEnd + r.1.toNat < 2 ^ 64
        omega
      · intro hc
        rw [hc] at hlen
        simp only [length_nil] at hlen
        omega
      · simp only [Mv.apply, hlen]
        rw [← hsame.2]
        rfl
    · exact Sends.of_eq rfl
  · exact .refl

lemma earlySpan_sends (s : Session) (hrole : p.role = .dialer) (hph : s.phase = .pending)
    (hok : ∀ k, ok (.span k)) : s.Moved p ok (s.earlySpan p) := by
  unfold earlySpan
  split
  · exact .refl
  rename_i hn
  refine Sends.of_move (.span _) (hok _) ⟨hn, hrole, hph, ?_, ?_, fun hk => ?_⟩ rfl rfl
  · show _ ≤ s.tx.endOff - p.firstOffset
    split
    · exact min_le_left _ _
    · exact Nat.zero_le _
  · split
    · exact min_le_right _ _
    · exact Nat.zero_le _
  · split at hk
    · assumption
    · exact absurd rfl hk

/-- The stuck segment starts at the front and is in flight on its holder. -/
lemma rescueHolder_some {s : Session} {sp : Span} (h : s.rescueHolder p = some (l, sp)) :
    l ∈ s.order ∧ sp.off = s.tx.sBase ∧ 0 < sp.n ∧
      ∀ x, sp.off ≤ x → x < sp.endOff → x ∈ (s.lanes l).infl := by
  unfold rescueHolder at h
  simp only at h
  split at h
  · cases h
  obtain ⟨i, hi, hf⟩ := exists_of_findSome?_eq_some h
  simp only [Option.map_eq_some_iff, Prod.mk.injEq] at hf
  obtain ⟨a, ha, rfl, rfl⟩ := hf
  have hmem := mem_of_find?_eq_some ha
  have hin := find?_some ha
  simp only [Bool.and_eq_true, decide_eq_true_eq] at hin
  have hchunk := s.tx.lt_chunkEnd s.tx.sBase
  have hseg := p.segment_pos
  refine ⟨hi, rfl, by simp only; omega, fun x h1 h2 => ?_⟩
  have h1 : s.tx.sBase ≤ x := h1
  have h2 : x < s.tx.sBase +
    (min (min a.endOff (s.tx.chunkEnd s.tx.sBase)) (s.tx.sBase + p.segment) - s.tx.sBase) := h2
  exact SpanList.mem_def.mpr ⟨a, hmem, by omega, by omega⟩

lemma rescue_sends (s : Session) (hok : ∀ l sp, ok (.rescue l sp)) :
    s.Moved p ok (s.rescue p) := by
  unfold rescue
  split
  · exact .refl
  rename_i hc
  simp only [ne_eq, not_or, Decidable.not_not, Bool.not_eq_true] at hc
  split
  · exact .refl
  rename_i l sp hh
  obtain ⟨hl, hoff, hn, hin⟩ := rescueHolder_some hh
  simp only
  split
  · exact Sends.of_move (.rescue l sp) (hok l sp) ⟨hc.1, hc.2.2.2, hl, hoff, hn, hin⟩ rfl rfl
  · exact .refl

end Session

end Rendr
