import Rendr.Session.Pull
import Rendr.Session.RecvRun
import Rendr.Session.Step

/-!
# What an event does to the receive side

Every critical section of a session moves its receive side by a few steps of the receive machine
(`RecvState.step`) and by ACK bookkeeping the receive invariants do not look at. `Moves` is that
relation, over the receive events a section may cause; each section has one lemma, and
`step_moves` puts them together. So every property of the receive machine is one of the session;
`step_wf` has the first of them.
-/

namespace Rendr

/-- The receive side of a session, with what Read has returned. -/
def Session.recvState (s : Session) : RecvState := ⟨s.rx, s.got⟩

/-- The ring and the counters it follows. -/
@[ext] structure ChunkPart where
  cbase : Nat
  chunks : Nat
  sBase : Nat
  endOff : Nat
  resEnd : Nat
  wround : Option (List Byte)

def Tx.chunkPart (t : Tx) : ChunkPart := ⟨t.cbase, t.chunks, t.sBase, t.endOff, t.resEnd, t.wround⟩

def Session.chunkPart (s : Session) : ChunkPart := s.tx.chunkPart

/-- What most sections of the send side leave alone. -/
def Session.kept (s : Session) : RecvState × ChunkPart := (s.recvState, s.chunkPart)

/-- Only the ACK bookkeeping differs. -/
structure AckOnly (rx rx' : Rx) : Prop where
  core : rx'.core = rx.core
  delivered : rx'.peerFinDelivered = rx.peerFinDelivered
  flag : rx'.ackFinDelivered = rx.ackFinDelivered

/-- A sequence of receive events from `ok`, with ACK bookkeeping in between. -/
inductive Moves (p : Params) (ok : RecvEv → Prop) (s : RecvState) : RecvState → Prop
  | refl : Moves p ok s s
  | ack {t : RecvState} {rx : Rx} (h : Moves p ok s t) (ha : AckOnly t.rx rx) :
    Moves p ok s ⟨rx, t.got⟩
  | ev {t : RecvState} (h : Moves p ok s t) (e : RecvEv) (he : ok e) : Moves p ok s (t.step p e)

namespace Moves

variable {p : Params} {ok : RecvEv → Prop} {s t u : RecvState}

lemma trans (h : Moves p ok s t) (h' : Moves p ok t u) : Moves p ok s u := by
  induction h' with
  | refl => exact h
  | ack _ ha ih => exact ih.ack ha
  | ev _ e he ih => exact ih.ev e he

lemma mono {ok' : RecvEv → Prop} (h : Moves p ok s t) (hok : ∀ e, ok e → ok' e) :
    Moves p ok' s t := by
  induction h with
  | refl => exact .refl
  | ack _ ha ih => exact ih.ack ha
  | ev _ e he ih => exact ih.ev e (hok e he)

/-- What the bookkeeping and every receive event preserve, the moves preserve. -/
lemma inv (h : Moves p ok s t) (Inv : RecvState → Prop)
    (hack : ∀ t rx, AckOnly t.rx rx → Inv t → Inv ⟨rx, t.got⟩)
    (hev : ∀ t e, ok e → Inv t → Inv (t.step p e)) (hs : Inv s) : Inv t := by
  induction h with
  | refl => exact hs
  | ack _ ha ih => exact hack _ _ ha ih
  | ev _ e he ih => exact hev _ e he ih

end Moves

/-- Right edges only. -/
def RecvEv.isEdge : RecvEv → Prop
  | .edge _ => True
  | _ => False

variable (l : LaneId)

namespace Session

variable {p : Params}

/-- The moves of a section that at most advertises a right edge. -/
def Quiet (p : Params) (s s' : Session) : Prop :=
  Moves p RecvEv.isEdge s.recvState s'.recvState

namespace Quiet

variable {s s' : Session}

lemma of_eq (h : s'.recvState = s.recvState) : Quiet p s s' := by
  unfold Quiet
  rw [h]
  exact .refl

lemma trans {s t u : Session} (h : Quiet p s t) (h' : Quiet p t u) : Quiet p s u :=
  Moves.trans h h'

/-- Before the section something else than the receive side changed. -/
lemma behind {s t u : Session} (h : Quiet p t u) (heq : t.recvState = s.recvState) :
    Quiet p s u := (Quiet.of_eq heq).trans h

/-- Such a section leaves all but the right edge and the ACK bookkeeping alone. -/
lemma core_eq (h : Quiet p s s') :
    s'.rx.core = { s.rx.core with rightEdge := s'.rx.rightEdge } ∧
      s.rx.rightEdge ≤ s'.rx.rightEdge ∧ s'.got = s.got ∧
      s'.rx.peerFinDelivered = s.rx.peerFinDelivered ∧
      s'.rx.ackFinDelivered = s.rx.ackFinDelivered := by
  refine Moves.inv h (fun t => t.rx.core = { s.rx.core with rightEdge := t.rx.rightEdge } ∧
    s.rx.rightEdge ≤ t.rx.rightEdge ∧ t.got = s.got ∧
    t.rx.peerFinDelivered = s.rx.peerFinDelivered ∧
    t.rx.ackFinDelivered = s.rx.ackFinDelivered) ?_ ?_ ⟨rfl, le_rfl, rfl, rfl, rfl⟩
  · rintro t rx ha ⟨h1, h2, h3, h4, h5⟩
    have he : rx.rightEdge = t.rx.rightEdge := (Rx.core_eq ha.core).2.2.1
    refine ⟨?_, he ▸ h2, h3, ha.delivered.trans h4, ha.flag.trans h5⟩
    rw [he, ← h1]
    exact ha.core
  rintro t e he ⟨h1, h2, h3, h4, h5⟩
  cases e with
  | edge e =>
    refine ⟨?_, le_trans h2 (Nat.le_max_left _ _), h3, h4, h5⟩
    exact congrArg (fun rx : Rx => { rx with rightEdge := max t.rx.rightEdge e }) h1
  | _ => cases he

lemma read_eq (h : Quiet p s s') : s'.rx.rRead = s.rx.rRead := by
  have := congrArg Rx.rRead h.core_eq.1
  exact this

end Quiet

/-- A section that at most advertises a right edge, and leaves the ring alone. -/
structure Still (p : Params) (s s' : Session) : Prop where
  quiet : Quiet p s s'
  ring : s'.chunkPart = s.chunkPart

namespace Still

lemma of_eq {s s' : Session} (h : s'.kept = s.kept) : Still p s s' :=
  ⟨.of_eq (congrArg Prod.fst h), congrArg Prod.snd h⟩

lemma trans {s t u : Session} (h : Still p s t) (h' : Still p t u) : Still p s u :=
  ⟨h.quiet.trans h'.quiet, h'.ring.trans h.ring⟩

/-- Before the section neither the receive side nor the ring changed. -/
lemma behind {s t u : Session} (h : Still p t u) (heq : t.kept = s.kept) : Still p s u :=
  (of_eq heq).trans h

end Still

/-! ### Sections that leave the receive side and the ring alone -/

@[simp] lemma setLane_kept (s : Session) (l : LaneId) (f : Lane → Lane) :
    (s.setLane l f).kept = s.kept := rfl

@[simp] lemma withTx_recvState (s : Session) (f : Tx → Tx) :
    (s.withTx f).recvState = s.recvState := rfl

@[simp] lemma unroute_kept (p : Params) (l : LaneId) (st : LaneState) (s : Session) :
    (s.unroute p l st).kept = s.kept := rfl

@[simp] lemma writeRound_recvState (p : Params) (bs : List Byte) (deadline : Bool) (grants : Nat)
    (s : Session) : (s.writeRound p bs deadline grants).1.recvState = s.recvState := by
  unfold writeRound
  dsimp only [reserveChunks]
  repeat' split
  all_goals rfl

@[simp] lemma commitRound_recvState (s : Session) : s.commitRound.recvState = s.recvState := by
  unfold commitRound
  repeat' split
  all_goals rfl

@[simp] lemma closeWrite_kept (s : Session) : s.closeWrite.kept = s.kept := by
  unfold closeWrite
  split <;> rfl

@[simp] lemma rescue_kept (p : Params) (s : Session) :
    (s.rescue p).kept = s.kept := by
  unfold rescue
  split
  · rfl
  split
  · rfl
  · simp only
    split <;> rfl

@[simp] lemma fillFin_kept (p : Params) (l : LaneId) (s : Session) (b : Batch) :
    (s.fillFin p l b).1.kept = s.kept := by
  unfold fillFin
  split
  · split <;> rfl
  · rfl

@[simp] lemma fillFirst_kept (p : Params) (l : LaneId) (s : Session) (b : Batch) :
    (s.fillFirst p l b).2.1.kept = s.kept := by
  unfold fillFirst
  split
  · split
    · rfl
    · simp only
      split <;> split <;> rfl
  · rfl

@[simp] lemma retireLane_kept (p : Params) (l : LaneId) (s : Session) :
    (s.retireLane p l).kept = s.kept := by
  unfold retireLane
  split
  · rfl
  · exact unroute_kept ..

@[simp] lemma qualitySwitch_kept (p : Params) (l : LaneId) (s : Session) :
    (s.qualitySwitch p l).kept = s.kept := by
  unfold qualitySwitch
  simp only
  split
  · rfl
  · split <;> rfl

@[simp] lemma lostActive_kept (p : Params) (r : RouteIn) (s : Session) :
    (s.lostActive p r).kept = s.kept := by
  unfold lostActive
  split <;> rfl

@[simp] lemma dropSender_kept (p : Params) (s : Session) :
    (s.dropSender p).kept = s.kept := by
  unfold dropSender
  split
  · rfl
  · simp only
    split <;> rfl

@[simp] lemma passiveRouteOne_kept (p : Params) (r : RouteIn) (s : Session) :
    (s.passiveRouteOne p r).kept = s.kept := by
  unfold passiveRouteOne
  split
  · rfl
  · split <;> exact s.dropSender_kept p

@[simp] lemma routeMember_kept (p : Params) (want : List LaneId) (s : Session) (l : LaneId) :
    (s.routeMember p want l).kept = s.kept := by
  unfold routeMember
  simp only
  split
  · rfl
  · split <;> rfl

/-- A fold of sections that leave both alone does so too. -/
lemma foldl_kept {f : Session → LaneId → Session}
    (hf : ∀ s l, (f s l).kept = s.kept) (ls : List LaneId) (s : Session) :
    (ls.foldl f s).kept = s.kept := by
  induction ls generalizing s with
  | nil => rfl
  | cons l ls ih => rw [List.foldl_cons, ih, hf]

@[simp] lemma passiveRoute_kept (p : Params) (r : RouteIn) (s : Session) :
    (s.passiveRoute p r).kept = s.kept := by
  unfold passiveRoute
  split
  · rfl
  · split
    · exact foldl_kept (routeMember_kept p r.want) s.order s
    · exact s.passiveRouteOne_kept p r

@[simp] lemma repair_kept (p : Params) (r : RouteIn) (w : Bool) (s : Session) :
    (s.repair p r w).kept = s.kept := by
  unfold repair
  split
  · exact s.passiveRoute_kept p r
  · split
    · exact s.lostActive_kept p r
    · rfl

@[simp] lemma peerClosed_kept (p : Params) (l : LaneId) (r : RouteIn) (s : Session) :
    (s.peerClosed p l r).kept = s.kept := by
  unfold peerClosed
  split
  · simp only
    split
    · exact s.retireLane_kept p l
    · rw [repair_kept, retireLane_kept]
  · rfl

@[simp] lemma attachRole_kept (p : Params) (l : LaneId) (a : AttachIn) (s : Session) :
    (s.attachRole p l a).kept = s.kept := by
  unfold attachRole
  split
  · split
    · rfl
    · exact s.retireLane_kept p l
  split
  · rfl
  · split
    · exact s.qualitySwitch_kept p l
    · exact s.retireLane_kept p l

@[simp] lemma earlyVerdict_kept (p : Params) (l : LaneId) (early : Bool) (s : Session) :
    (s.earlyVerdict p l early).kept = s.kept := by
  unfold earlyVerdict
  simp only
  repeat' split
  all_goals rfl

@[simp] lemma earlySpan_kept (p : Params) (s : Session) :
    (s.earlySpan p).kept = s.kept := by
  unfold earlySpan
  split <;> rfl

@[simp] lemma applyRxNext_recvState (rx : Nat) (s : Session) :
    (s.applyRxNext rx).1.recvState = s.recvState := by
  unfold applyRxNext
  repeat' split
  all_goals rfl

@[simp] lemma confirmLane_kept (w : Nat) (s : Session) (l : LaneId) :
    (s.confirmLane w l).kept = s.kept := by
  unfold confirmLane
  split <;> rfl

@[simp] lemma adoptEarly_kept (early : Bool) (s : Session) :
    (s.adoptEarly l early).kept = s.kept := by
  unfold adoptEarly
  split <;> rfl

/-! ### ACK bookkeeping and right edges -/

/-- A section that only does ACK bookkeeping. -/
lemma Still.of_ack {s s' : Session} (h : AckOnly s.rx s'.rx) (hg : s'.got = s.got)
    (hc : s'.chunkPart = s.chunkPart) : Still p s s' := by
  refine ⟨?_, hc⟩
  have : s'.recvState = ⟨s'.rx, s.recvState.got⟩ := by
    unfold recvState
    rw [hg]
  unfold Quiet
  rw [this]
  exact Moves.refl.ack h

/-- A section that only raises the right edge. -/
lemma Still.of_edge {s s' : Session} (e : Nat)
    (h : s'.rx = { s.rx with rightEdge := max s.rx.rightEdge e }) (hg : s'.got = s.got)
    (hc : s'.chunkPart = s.chunkPart) : Still p s s' := by
  refine ⟨?_, hc⟩
  have : s'.recvState = s.recvState.step p (.edge e) := by
    unfold recvState RecvState.step
    rw [h, hg]
  unfold Quiet
  rw [this]
  exact Moves.refl.ev (.edge e) trivial

lemma bump_still (s : Session) : Still p s s.bump := .of_ack ⟨rfl, rfl, rfl⟩ rfl rfl

lemma maybeDone_still (s : Session) : Still p s s.maybeDone := by
  unfold maybeDone
  split
  · exact .of_eq rfl
  · exact .of_ack ⟨rfl, rfl, rfl⟩ rfl rfl

lemma raiseEdge_eq (p : Params) (used lim : Int) (rx : Rx) :
    rx.raiseEdge p used lim = { rx with
      rightEdge := max rx.rightEdge
        (rx.rRead + (advertiseWindow p.fl p.window used lim).toNat) } := by
  unfold Rx.raiseEdge
  simp only
  split
  · rw [Nat.max_eq_right (by omega)]
  · rw [Nat.max_eq_left (by omega)]

/-- The window of an OPEN or OPEN_ACK is what the raised right edge leaves. -/
lemma openWindow_spec (used max : Int) (s : Session) :
    (s.openWindow p used max).1 ≤
        (s.openWindow p used max).2.rx.rightEdge - (s.openWindow p used max).2.rx.rRead ∧
      (s.earlyOpen = true → p.earlyEnd ≤ (s.openWindow p used max).2.rx.rightEdge) := by
  unfold openWindow
  simp only
  refine ⟨min_le_left _ _, fun he => ?_⟩
  rw [raiseEdge_eq]
  unfold earlyWindow
  rw [if_pos he]
  exact le_trans (Nat.le_max_right _ _) (Nat.le_max_left _ _)

lemma openWindow_still (used max : Int) (s : Session) :
    Still p s (s.openWindow p used max).2 := by
  have h1 : Still p s (s.earlyWindow p) := by
    exact guard (.of_eq rfl) fun _ => .of_edge p.earlyEnd rfl rfl rfl
  exact h1.trans (.of_edge _ (raiseEdge_eq p used max _) rfl rfl)

lemma ackPlaced_still (fd dn : Bool) (s : Session) : Still p s (s.ackPlaced l fd dn) := by
  unfold ackPlaced
  have hdone : ∀ t : Session, Still p t
      (if dn && !t.doneSent then { t with doneSent := true } else t) := fun t => by
    exact guard (.of_eq rfl) fun _ => .of_eq rfl
  have h1 : Still p s (s.setLane l fun ln => { ln with ackSent := s.rx.ackGen }) := .of_eq rfl
  generalize s.setLane l (fun ln => { ln with ackSent := s.rx.ackGen }) = s' at h1
  refine h1.trans (Still.trans ?_ (hdone _))
  split
  · exact (maybeDone_still _).behind rfl
  · exact .of_eq rfl

lemma fillAck_still (i : FillIn) (s : Session) (b : Batch) : Still p s (s.fillAck p l i b).1 := by
  have h1 : Still p s (s.ackDelayed l i.late) := by
    exact guard (.of_eq rfl) fun _ => s.bump_still
  unfold fillAck
  simp only
  split
  · exact h1
  split
  · exact h1
  · refine (h1.trans ?_).trans (ackPlaced_still ..)
    exact .of_edge _ (raiseEdge_eq p i.used i.max _) rfl rfl

lemma fillControl_still (i : FillIn) (s : Session) (b : Batch) :
    Still p s (s.fillControl p l i b).2.1 := by
  unfold fillControl
  have h := s.fillFirst_kept p l b
  generalize s.fillFirst p l b = r at h
  simp only
  split
  · exact .of_eq h
  split
  · exact .of_eq h
  · split
    · exact (fillAck_still ..).behind h
    · exact .of_eq h

end Session

/-- A Fill loop leaves both alone. -/
lemma Pull.pullLoop_kept {p : Params} {l : LaneId} {q : Loop} (fuel : Nat) (st : Pull)
    (hnext : ∀ st, q.live st = true → 0 < (q.next (q.prep st.s)).2)
    (hprep : ∀ s, (q.prep s).kept = s.kept)
    (htook : ∀ k s, (q.took k s).kept = s.kept) :
    (pullLoop p l q fuel st).s.kept = st.s.kept := by
  refine pullLoop_inv (fun st' => st'.s.kept = st.s.kept) (fun st _ h => hnext st h)
    (fun st' h _ => (hprep st'.s).trans h) (fun st' k st'' h _ hp => ?_) fuel rfl
  rw [htook, hp.s_eq]
  exact (hprep st'.s).trans h

namespace Pull

/-! ### What a live loop asks for -/

lemma rescueLoop_next (st : Pull) (h : rescueLoop.live st = true) :
    0 < (rescueLoop.next (rescueLoop.prep st.s)).2 := of_decide_eq_true h

lemma retxLoop_next (st : Pull) (h : retxLoop.live st = true) :
    0 < (retxLoop.next (retxLoop.prep st.s)).2 := by
  simp only [retxLoop, Bool.and_eq_true, decide_eq_true_eq] at h ⊢
  split
  next hnil => exact absurd hnil h.2
  rename_i sp t hcons
  have hw := st.s.tx.retx.wf
  rw [hcons] at hw
  exact hw.2.1

lemma newLoop_next (st : Pull) (h : newLoop.live st = true) :
    0 < (newLoop.next (newLoop.prep st.s)).2 := by
  simp only [newLoop, Bool.and_eq_true, decide_eq_true_eq] at h ⊢
  omega

/-- Before the committed end and the peer's limit, with nothing queued below it, a race cursor has
bytes to send. -/
lemma raceNext_pos {l : LaneId} {s : Session} (hq : ∀ x ∈ s.tx.retx, (s.lanes l).rnext ≤ x)
    (h : (s.lanes l).rnext < min s.tx.endOff s.tx.peerLimit) : 0 < (raceNext l s).1 := by
  unfold raceNext
  simp only
  split
  · simp only
    omega
  rename_i sp t hcons
  have hw := s.tx.retx.wf
  rw [hcons] at hw
  have hn := hw.2.1
  have hmem := hq sp.off (SpanList.mem_head hcons le_rfl (by unfold Span.endOff; omega))
  split
  · unfold Span.endOff
    omega
  · simp only
    omega

lemma raceLoop_next (st : Pull) (h : (raceLoop l).live st = true) :
    0 < ((raceLoop l).next ((raceLoop l).prep st.s)).2 := by
  have hlt : (st.s.lanes l).rnext < min st.s.tx.endOff st.s.tx.peerLimit := by
    simp only [raceLoop, Bool.and_eq_true, decide_eq_true_eq] at h
    exact h.2
  exact raceNext_pos (fun x hx => (SpanList.mem_trimBelow.mp hx).2) hlt

lemma fillRescue_kept (p : Params) (l : LaneId) (st : Pull) :
    (st.fillRescue p l).s.kept = st.s.kept := by
  unfold fillRescue
  split
  · have h := pullLoop_kept (p := p) (l := l) maxBatchFrames st rescueLoop_next
      (fun _ => rfl) fun _ _ => rfl
    simp only
    split <;> exact h
  · rfl

lemma fillData_kept (p : Params) (l : LaneId) (st : Pull) :
    (st.fillData p l).s.kept = st.s.kept := by
  unfold fillData
  simp only
  generalize hst : ({ st with s := st.s.withTx fun t =>
    { t with interleaved := if t.sBase = t.sNext then false else t.interleaved } } : Pull) = st0
  have h0 : st0.s.kept = st.s.kept := by rw [← hst]; rfl
  have h1 := fillRescue_kept p l st0
  have h2 := pullLoop_kept (p := p) (l := l) maxBatchFrames (st0.fillRescue p l) retxLoop_next
    (fun _ => rfl) fun _ _ => rfl
  have h3 := pullLoop_kept (p := p) (l := l) maxBatchFrames
    (pullLoop p l retxLoop maxBatchFrames (st0.fillRescue p l)) newLoop_next (fun _ => rfl)
    fun _ _ => rfl
  split <;> exact h3.trans (h2.trans (h1.trans h0))

lemma raceFillData_kept (p : Params) (l : LaneId) (st : Pull) :
    (st.raceFillData p l).s.kept = st.s.kept := by
  refine (pullLoop_kept (p := p) (l := l) maxBatchFrames _ (raceLoop_next l)
    (fun _ => rfl) fun k s => ?_).trans rfl
  simp only [raceLoop]
  split <;> rfl

end Pull

namespace Session

variable {p : Params}

/-- DATA and the FIN leave both alone. -/
lemma fillLane_kept (i : FillIn) (s : Session) (b : Batch) (h : (s.lanes l).state ≠ .dead) :
    (s.fillLane p l i b).1.kept = (s.fillControl p l i b).2.1.kept := by
  unfold fillLane
  rw [if_neg h]
  simp only
  split
  · rw [fillFin_kept]
    split
    · rfl
    · split
      · exact Pull.raceFillData_kept p l _
      · exact Pull.fillData_kept p l _
  · rfl

lemma fillLane_still (i : FillIn) (s : Session) (b : Batch) :
    Still p s (s.fillLane p l i b).1 := by
  by_cases h : (s.lanes l).state = .dead
  · unfold fillLane
    rw [if_pos h]
    exact .of_eq rfl
  · exact (fillControl_still l i s b).trans (.of_eq (fillLane_kept l i s b h))

lemma fill_still (i : FillIn) (s : Session) : Still p s (s.fill p l i).1 := by
  unfold fill
  split
  · exact .of_eq rfl
  split
  · split
    · exact .of_eq rfl
    · split
      · exact .of_eq rfl
      · exact (fillLane_still ..).behind rfl
  · exact fillLane_still ..

/-! ### Lanes that come and go -/

lemma laneAdded_still (s : Session) : Still p s (s.laneAdded l) := by
  unfold laneAdded
  split
  · exact .of_eq rfl
  simp only
  split <;> exact .of_ack ⟨rfl, rfl, rfl⟩ rfl rfl

lemma newLane_still (st : LaneState) (s : Session) : Still p s (s.newLane l st) :=
  (laneAdded_still ..).behind rfl

lemma laneGone_still (s : Session) : Still p s (s.laneGone p l) := by
  unfold laneGone
  simp only
  split
  · exact .of_eq rfl
  · exact (bump_still _).behind rfl

lemma laneDied_still (r : RouteIn) (s : Session) : Still p s (s.laneDied p l r) := by
  refine guard (.of_eq rfl) fun _ => ?_
  have h : Still p s
      ((s.setLane l fun ln => { ln with state := .dead, data := false }).laneGone p l) :=
    (laneGone_still ..).behind rfl
  simp only
  generalize (s.setLane l fun ln => { ln with state := .dead, data := false }).laneGone p l = s'
    at h
  split
  · exact h.trans (.of_eq rfl)
  · exact h.trans (.of_eq (repair_kept ..))

lemma attach_still (a : AttachIn) (s : Session) : Still p s (s.attach p l a) := by
  unfold attach
  have h := newLane_still (p := p) l .member s
  split
  · refine h.trans (.of_eq ?_)
    rw [setLane_kept, attachRole_kept, setLane_kept]
  · refine h.trans (.of_eq ?_)
    rw [attachRole_kept, setLane_kept]

lemma openOK_still (window : Nat) (early : Bool) (a : AttachIn) (s : Session) :
    Still p s (s.openOK p l window early a) := by
  unfold openOK
  split
  · exact .of_eq rfl
  split
  · have h := attach_still (p := p) l { a with member := true }
      ({ s with phase := .opn }.peerWindow window)
    exact (h.trans (.of_eq (earlyVerdict_kept p l early _))).behind rfl
  · exact attach_still l a s

lemma joinOK_quiet (rxNext : Nat) (a : AttachIn) (s : Session) :
    Quiet p s (s.joinOK p l rxNext a).1 := by
  unfold joinOK
  split
  · exact .of_eq rfl
  have h := s.applyRxNext_recvState rxNext
  split <;> rename_i heq <;> rw [heq] at h
  · exact .of_eq h
  · exact (attach_still ..).quiet.behind h

lemma recvOpen_still (early : Bool) (window : Nat) (s : Session) :
    Still p s (s.recvOpen l early window) := by
  unfold recvOpen
  split
  · have h := newLane_still (p := p) l .joining
      ({ s with phase := .pending, earlyOpen := early }.peerWindow window)
    exact Still.trans (h.behind rfl) (.of_eq rfl)
  · exact .of_eq rfl
  · exact .of_eq rfl

lemma recvJoin_quiet (rxNext : Nat) (s : Session) : Quiet p s (s.recvJoin l rxNext).1 := by
  unfold recvJoin
  split
  · exact .of_eq rfl
  have h := s.applyRxNext_recvState rxNext
  split <;> rename_i heq <;> rw [heq] at h <;> exact .of_eq h

lemma adopt_still (used max : Int) (s : Session) : Still p s (s.adopt p l used max) := by
  have hfirst : ∀ (t : Session) k, Still p t (t.adoptFirst p l used max k) := fun t k => by
    unfold adoptFirst
    split
    · exact .of_eq rfl
    have h := t.adoptEarly_kept l ‹Bool›
    simp only
    split
    · exact .of_eq h
    · exact Still.trans ((openWindow_still used max _).behind h) (.of_eq rfl)
  unfold adopt
  split
  · exact .of_eq rfl
  simp only
  split
  · exact .of_eq rfl
  · exact ((newLane_still l .joining _).trans (hfirst _ _)).behind rfl

lemma ack_quiet (fd dn : Bool) (d w : Nat) (s : Session) : Quiet p s (s.ack l fd dn d w).1 := by
  unfold ack
  split
  · exact .of_eq rfl
  split
  · exact .of_eq rfl
  split
  · exact .of_eq rfl
  have hdone : ∀ t : Session, Quiet p t (if dn then { t with peerDone := true } else t) := fun t => by
    exact guard (.of_eq rfl) fun _ => .of_eq rfl
  refine Quiet.trans ?_ (hdone _)
  generalize hs : ((if (s.setLane l fun ln => { ln with lastAck := d }).tx.sBase < d then
      (s.setLane l fun ln => { ln with lastAck := d }).advanceSend d
    else s.setLane l fun ln => { ln with lastAck := d }).withTx fun t =>
      { t with peerLimit := max t.peerLimit (d + w) }) = s'
  have h0 : s'.recvState = s.recvState := by
    rw [← hs, withTx_recvState]
    split <;> rfl
  split
  · refine (maybeDone_still _).quiet.behind ?_
    split <;> exact h0
  · exact .of_eq h0

end Session

/-! ### Every event -/

/-- The receive events an event may cause. -/
def Ev.Causes (ev : Ev) : RecvEv → Prop
  | .recv f => ∃ l buf, ev = .recv l (.data f.off f.p) buf
  | .fin off => ∃ l buf, ev = .recv l (.fin off) buf
  | .readView len deadline => ev = .readView len deadline
  | .readCommit => ev = .readCommit
  | .close => ev = .close
  | .edge _ => True
  | .confirm => ∃ used max down, ev = .confirm used max down
  | .finish => ev = .finish

namespace Session

variable {p : Params}

lemma Quiet.causes {s s' : Session} (h : Quiet p s s') (ev : Ev) :
    Moves p ev.Causes s.recvState s'.recvState :=
  Moves.mono h fun e he => by
    cases e with
    | edge _ => trivial
    | _ => cases he

/-- A section that is one receive event. -/
lemma moves_of_step {ok : RecvEv → Prop} {s s' : Session} (e : RecvEv) (he : ok e)
    (h : s'.recvState = s.recvState.step p e) : Moves p ok s.recvState s'.recvState := by
  rw [h]
  exact Moves.refl.ev e he

lemma recv_moves (f : Frame) (buf : Option Nat) (s : Session) :
    Moves p (Ev.recv l f buf).Causes s.recvState (s.recv p l f buf).1.recvState := by
  cases f with
  | data off bs =>
    unfold recv
    simp only
    split
    · exact .refl
    rename_i d hd
    obtain ⟨rfl, rfl⟩ : off = d.off ∧ bs = d.p := by
      unfold dataFrame? at hd
      split at hd
      · cases hd
        exact ⟨rfl, rfl⟩
      · cases hd
    have hok : (Ev.recv l (.data d.off d.p) buf).Causes (.recv d) := ⟨l, buf, rfl⟩
    unfold Rx.data
    split
    · exact .refl
    split
    · unfold Rx.earlyData
      simp only
      split
      · exact .refl
      · exact (Moves.refl.ev (.edge p.earlyEnd) trivial).ev (.recv d) hok
    · exact moves_of_step (.recv d) hok rfl
  | ack fd dn d w =>
    unfold recv
    simp only
    split
    · exact .refl
    · split
      · exact .refl
      · exact (ack_quiet l fd dn d w s).causes _
  | fin off =>
    unfold recv
    simp only
    split
    · exact .refl
    · split
      · exact .refl
      · exact moves_of_step (.fin off) ⟨l, buf, rfl⟩ rfl
  | _ =>
    unfold recv
    simp only
    split
    · exact .refl
    · split <;> exact .refl

/-- A confirmation opens the receive side and advertises a window. -/
lemma confirm_kept (used max : Int) (down : List LaneId) {s : Session}
    (h : ¬ (s.phase ≠ .pending ∨ p.role ≠ .passive ∨ s.rx.ended = true)) :
    (s.confirm p used max down).kept =
      ({ s with phase := .opn, rx := { s.rx with pending := false } }.openWindow p used
        max).2.kept := by
  unfold confirm
  rw [if_neg h]
  simp only
  generalize ({ s with phase := .opn, rx := { s.rx with pending := false } } :
    Session).openWindow p used max = r
  have h2 := foldl_kept (confirmLane_kept r.1) r.2.order r.2
  generalize r.2.order.foldl (confirmLane r.1) r.2 = s2 at h2
  split
  · have h3 := foldl_kept (f := fun s l => s.setLane l fun ln =>
      { ln with data := true, state := .member }) (fun _ _ => rfl)
    rw [h3]
    exact h2
  · split <;> exact h2

lemma confirm_moves (used max : Int) (down : List LaneId) (s : Session) :
    Moves p (Ev.confirm used max down).Causes s.recvState
      (s.confirm p used max down).recvState := by
  by_cases hc : s.phase ≠ .pending ∨ p.role ≠ .passive ∨ s.rx.ended = true
  · unfold confirm
    rw [if_pos hc]
    exact .refl
  have h0 : Moves p (Ev.confirm used max down).Causes s.recvState
      ({ s with phase := .opn, rx := { s.rx with pending := false } } : Session).recvState :=
    moves_of_step .confirm ⟨used, max, down, rfl⟩ rfl
  have he := congrArg Prod.fst (confirm_kept (p := p) used max down hc)
  change (s.confirm p used max down).recvState = Session.recvState _ at he
  rw [he]
  exact h0.trans ((openWindow_still (p := p) used max _).quiet.causes _)

/-- **What an event does to the receive side**: the receive events it may cause, and ACK
bookkeeping. -/
lemma step_moves (p : Params) (s : Session) (ev : Ev) :
    Moves p ev.Causes s.recvState (s.step p ev).1.recvState := by
  have same : ∀ {s' : Session}, s'.recvState = s.recvState →
      Moves p ev.Causes s.recvState s'.recvState := fun h => by
    rw [h]
    exact .refl
  have quiet : ∀ {s' : Session}, Quiet p s s' → Moves p ev.Causes s.recvState s'.recvState :=
    fun h => h.causes ev
  have still : ∀ {s' : Session}, Still p s s' → Moves p ev.Causes s.recvState s'.recvState :=
    fun h => quiet h.quiet
  cases ev with
  | write bs deadline grants => exact same (writeRound_recvState ..)
  | commit => exact same s.commitRound_recvState
  | closeWrite => exact still (.of_eq s.closeWrite_kept)
  | close =>
    show Moves p _ _ (s.close p).recvState
    unfold close
    split
    · exact .refl
    refine moves_of_step .close rfl ?_
    have h : s.closeWrite.recvState = s.recvState := congrArg Prod.fst s.closeWrite_kept
    unfold recvState at h ⊢
    simp only [RecvState.mk.injEq] at h
    simp only [RecvState.step, h.1, h.2]
  | readView len deadline => exact moves_of_step (.readView len deadline) rfl rfl
  | readCommit => exact moves_of_step .readCommit rfl rfl
  | fill l i => exact still (fill_still l i s)
  | recv l f buf =>
    simp only [step]
    split
    · exact recv_moves l f buf s
    · exact .refl
  | dial used max =>
    simp only [step]
    split
    · exact still ((openWindow_still used max s).trans (.of_eq rfl))
    · exact .refl
  | attempt =>
    simp only [step]
    split
    · exact still (.of_eq (s.earlySpan_kept p))
    · exact .refl
  | openOK l window early a =>
    simp only [step]
    split
    · exact still (openOK_still l window early a s)
    · exact .refl
  | joinOK l rxNext a =>
    simp only [step]
    split
    · exact quiet (joinOK_quiet l rxNext a s)
    · exact .refl
  | recvOpen l early window =>
    simp only [step]
    split
    · exact still (recvOpen_still l early window s)
    · exact .refl
  | recvJoin l rxNext =>
    simp only [step]
    split
    · exact quiet (recvJoin_quiet l rxNext s)
    · exact .refl
  | confirm used max down => exact confirm_moves used max down s
  | adopt l used max =>
    simp only [step]
    split
    · exact still (adopt_still l used max s)
    · exact .refl
  | rescue => exact still (.of_eq (s.rescue_kept p))
  | bump =>
    simp only [step]
    split
    · exact .refl
    · exact still s.bump_still
  | refreshOrder o =>
    simp only [step]
    split <;> exact .refl
  | laneDied l r => exact still (laneDied_still l r s)
  | peerClosed l r => exact still (.of_eq (s.peerClosed_kept p l r))
  | retire l =>
    simp only [step]
    split
    · exact still (.of_eq (s.retireLane_kept p l))
    · exact .refl
  | switch l =>
    simp only [step]
    split
    · exact still (.of_eq (s.qualitySwitch_kept p l))
    · exact .refl
  | lost r =>
    simp only [step]
    split
    · exact still (.of_eq (s.lostActive_kept p r))
    · exact .refl
  | route r =>
    simp only [step]
    split
    · exact still (.of_eq (s.passiveRoute_kept p r))
    · exact .refl
  | finish =>
    simp only [step, finish]
    split
    · exact .refl
    · exact moves_of_step .finish rfl rfl

end Session

/-- What every receive event preserves together with well-formedness, the moves preserve. -/
lemma Moves.wf {p : Params} {ok : RecvEv → Prop} {s t : RecvState} (h : Moves p ok s t)
    (hw : s.rx.Wf) : t.rx.Wf ∧ s.rx.rRead ≤ t.rx.rRead ∧
      (s.rx.closed = true → t.rx.closed = true) ∧ (s.rx.ended = true → t.rx.ended = true) := by
  refine h.inv (fun t => t.rx.Wf ∧ s.rx.rRead ≤ t.rx.rRead ∧
    (s.rx.closed = true → t.rx.closed = true) ∧ (s.rx.ended = true → t.rx.ended = true))
    (fun t rx ha ⟨h1, h2, h3, h4⟩ => ?_) (fun t e _ ⟨h1, h2, h3, h4⟩ => ?_)
    ⟨hw, le_rfl, id, id⟩
  · obtain ⟨_, hr, _, _, _, hc, he, _⟩ := Rx.core_eq ha.core
    exact ⟨h1.of_core ha.core, hr ▸ h2, fun h => hc.trans (h3 h), fun h => he.trans (h4 h)⟩
  · obtain ⟨h5, h6, h7, h8⟩ := t.step_mono p h1 e
    exact ⟨h5, le_trans h2 h6, fun h => (h7 (h3 h)).1, fun h => h8 (h4 h)⟩

/-- The receive side stays well formed, and neither the read position, a Close nor the end is
taken back. -/
lemma Session.step_wf (p : Params) {s : Session} (hw : s.rx.Wf) (ev : Ev) :
    (s.step p ev).1.rx.Wf ∧ s.rx.rRead ≤ (s.step p ev).1.rx.rRead ∧
      (s.rx.closed = true → (s.step p ev).1.rx.closed = true) ∧
      (s.rx.ended = true → (s.step p ev).1.rx.ended = true) :=
  (s.step_moves p ev).wf hw

end Rendr
