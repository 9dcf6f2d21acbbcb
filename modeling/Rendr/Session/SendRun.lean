import Rendr.Session.SendData

/-!
# The send side over whole runs

Every event of a session is a sequence of moves of its send side (`step_sends`); which moves an
event may make, and with which values, is `Ev.Makes`. So `SendInv` holds in every state of every
run that has not ended, and with it the sender's accounting.

* `sender_keeps_every_byte`: selector and bond;
* `race_sender_keeps_every_byte`: race;
* `fill_replays_first`, `sent_as_written`: the order and the bytes of what is sent.
-/

namespace Rendr

/-- The moves the event may make that leads from `s` to `s'`. -/
def Ev.Makes (p : Params) (s s' : Session) (ev : Ev) (m : Mv) : Prop :=
  match ev with
  | .write _ _ _ => ∃ bs, m = .reserve bs
  | .commit => m = .commit ∧ s.rx.ended = false ∨ m = .drop
  | .closeWrite | .close => m = .request
  | .readView _ _ | .readCommit | .bump => False
  | .fill l i => s.FillOk p l i s' m
  | .recv l f _ => ∃ fd dn d w, f = .ack fd dn d w ∧ s.rx.ended = false ∧
      (m = .lastAck l d ∨ m = .advance d ∨ m = .limit (d + w))
  | .dial _ _ => ∃ w, m = .openWin w ∧ w ≤ s'.rx.rightEdge - s'.rx.rRead
  | .attempt => ∃ k, m = .span k
  | .openOK l w early _ => m.Routing ∨ m = .attach l false ∨
      s.rx.ended = false ∧ s.phase = .pending ∧ (m = .phase .opn ∨ m = .limit (s.tx.sBase + w) ∨
        m = .verdict l (if early then s.early.getD 0 else 0))
  | .joinOK l rx _ => m.Routing ∨ m = .attach l false ∨ s.phase = .opn ∧ m = .advance rx
  | .recvOpen l early w => m = .adopting (s.adopting ++ [(l, .open early)]) ∨
      s.phase = .absent ∧
        (m = .attach l early ∨ m = .phase .pending ∨ m = .limit (s.tx.sBase + w))
  | .recvJoin l rx => m = .adopting (s.adopting ++ [(l, .join)]) ∨ m = .advance rx
  | .confirm _ _ _ => m.Routing ∨ m = .phase .opn ∨
      ∃ l w, m = .first l (.openAck w) ∧ w ≤ s'.rx.rightEdge - s'.rx.rRead ∧
        (s.earlyOpen = true → p.earlyEnd ≤ s'.rx.rightEdge)
  | .adopt l _ _ => m = .adopting (s.adopting.filter fun a => decide (a.1 ≠ l)) ∨
      s.adopting.lookup l = some .join ∧
        (m = .attach l false ∨ m = .first l (.joinAck s.rx.rRead)) ∨
      ∃ early, s.adopting.lookup l = some (.open early) ∧ (m = .attach l early ∨
        s.phase ≠ .pending ∧ ∃ w, m = .first l (.openAck w) ∧
          w ≤ s'.rx.rightEdge - s'.rx.rRead ∧ (early = true → p.earlyEnd ≤ s'.rx.rightEdge))
  | .rescue => ∃ l sp, m = .rescue l sp
  | .refreshOrder o => m = .reorder o
  | .laneDied _ _ | .peerClosed _ _ | .retire _ | .switch _ | .lost _ | .route _ => m.Routing
  | .finish => m = .finish

namespace Session

variable {p : Params}

lemma recv_sends (s : Session) (l : LaneId) (f : Frame) (buf : Option Nat) {s' : Session} :
    Sends p ((Ev.recv l f buf).Makes p s s') s.sendPart [] (s.recv p l f buf).1.sendPart := by
  unfold recv
  split
  · split <;> exact .refl
  split
  · exact .refl
  rename_i hend
  split
  · exact .refl
  split
  next fd dn d w _ =>
    have hend := Bool.eq_false_iff.mpr hend
    exact ack_sends s l fd dn d w ⟨fd, dn, d, w, rfl, hend, .inl rfl⟩
      ⟨fd, dn, d, w, rfl, hend, .inr (.inl rfl)⟩ ⟨fd, dn, d, w, rfl, hend, .inr (.inr rfl)⟩
  · exact .refl
  · exact .refl
  · exact .refl

lemma finish_sends {ok : Mv → Prop} (s : Session) (hok : ok .finish) :
    Sends p ok s.sendPart [] s.finish.sendPart := by
  unfold finish
  split
  · exact .refl
  refine Sends.of_move .finish hok trivial ?_ rfl
  simp only [Mv.apply]
  apply SendPart.ext
  case lanes =>
    funext i
    show (if i ∈ s.order ∧ decide ((s.lanes i).state = .dead) = false then _ else _) =
      (if i ∈ s.order ∧ (s.lanes i).state ≠ .dead then _ else s.lanes i : Lane).send
    simp only [decide_eq_false_iff_not]
    split
    next hi => simp [sendPart, Lane.send, hi.2]
    · rfl
  all_goals rfl

/-- **Every event is a sequence of moves of the send side**, which emit the frames it places. -/
lemma step_sends (p : Params) {s : Session} (ho : Opening p s.sendPart)
    (h : s.rx.ended = false → SendInv p s.sendPart) (ev : Ev) :
    Sends p (ev.Makes p s (s.step p ev).1) s.sendPart (s.step p ev).2.1
      (s.step p ev).1.sendPart := by
  cases ev with
  | write bs deadline grants => exact writeRound_sends s bs deadline grants fun bs' => ⟨bs', rfl⟩
  | commit =>
    exact commitRound_sends s (fun he => .inl ⟨rfl, he⟩) fun _ => .inr rfl
  | closeWrite => exact closeWrite_sends s rfl
  | close => exact close_sends s rfl
  | readView len deadline | readCommit => exact .refl
  | fill l i => exact fill_sends l i s h
  | recv l f buf =>
    simp only [step]
    split
    · exact recv_sends s l f buf
    · exact .refl
  | dial used max =>
    simp only [step]
    split
    · refine (Sends.of_eq (s.openWindow_sendPart p used max)).silent
        (.openWin (s.openWindow p used max).1) ⟨_, rfl, (openWindow_spec used max s).1⟩ trivial rfl
        rfl
    · exact .refl
  | attempt =>
    simp only [step]
    exact guard .refl fun hc => earlySpan_sends s hc.1 hc.2 fun k => ⟨k, rfl⟩
  | openOK l window early a =>
    simp only [step]
    split
    next hr =>
      exact openOK_sends (fun m hm => .inl hm) ho h hr window early a (.inr (.inl rfl))
        fun he hp => ⟨.inr (.inr ⟨he, hp, .inl rfl⟩), .inr (.inr ⟨he, hp, .inr (.inl rfl)⟩),
          .inr (.inr ⟨he, hp, .inr (.inr rfl)⟩)⟩
    · exact .refl
  | joinOK l rxNext a =>
    simp only [step]
    split
    · exact joinOK_sends (fun m hm => .inl hm) s l rxNext a (.inr (.inl rfl))
        fun hp => .inr (.inr ⟨hp, rfl⟩)
    · exact .refl
  | recvOpen l early window =>
    simp only [step]
    split
    next hr =>
      exact recvOpen_sends hr ho l early window
        (fun hp => ⟨.inr ⟨hp, .inl rfl⟩, .inr ⟨hp, .inr (.inl rfl)⟩, .inr ⟨hp, .inr (.inr rfl)⟩⟩)
        (.inl rfl)
    · exact .refl
  | recvJoin l rxNext =>
    simp only [step]
    split
    · exact recvJoin_sends s l rxNext (.inr rfl) (.inl rfl)
    · exact .refl
  | confirm used max down =>
    exact confirm_sends s used max down (fun m hm => .inl hm) (.inr (.inl rfl))
      fun l w h1 h2 => .inr (.inr ⟨l, w, rfl, h1, h2⟩)
  | adopt l used max =>
    simp only [step]
    split
    next hr =>
      exact adopt_sends hr ho l used max (.inl rfl)
        (fun hj => ⟨.inr (.inl ⟨hj, .inl rfl⟩), .inr (.inl ⟨hj, .inr rfl⟩)⟩)
        fun early he => ⟨.inr (.inr ⟨early, he, .inl rfl⟩), fun w hp h1 h2 =>
          .inr (.inr ⟨early, he, .inr ⟨hp, w, rfl, h1, h2⟩⟩)⟩
    · exact .refl
  | rescue => exact rescue_sends s fun l sp => ⟨l, sp, rfl⟩
  | bump =>
    simp only [step]
    split <;> exact .refl
  | refreshOrder o =>
    simp only [step]
    split
    next hp => exact Sends.of_move (.reorder o) rfl hp rfl rfl
    · exact .refl
  | laneDied l r => exact laneDied_sends (fun m hm => hm) s l r
  | peerClosed l r => exact peerClosed_sends (fun m hm => hm) s l r
  | retire l =>
    simp only [step]
    exact guard .refl fun _ => retireLane_sends (fun m hm => hm) s l
  | switch l =>
    simp only [step]
    split
    next hc =>
      have hm : p.mode ≠ .race := fun hm => by
        rw [hm] at hc
        cases hc.2.1
      exact qualitySwitch_sends (fun m hm => hm) hm (usable_mem hc.2.2.2.2).1
    · exact .refl
  | lost r =>
    simp only [step]
    exact guard .refl fun _ => lostActive_sends (fun m hm => hm) s r
  | route r =>
    simp only [step]
    exact guard .refl fun _ => passiveRoute_sends (fun m hm => hm) s r
  | finish => exact finish_sends s rfl

/-- Only the session's end is not a move that keeps the accounting. -/
lemma not_makes_finish {s s' : Session} {ev : Ev} (hev : ev ≠ .finish) :
    ¬ ev.Makes p s s' .finish := by
  cases ev <;> simp [Ev.Makes, FillOk, Mv.Routing] at hev ⊢

/-- Every event keeps the accounting, unless the session has ended. -/
lemma step_send (p : Params) {s : Session} (ho : Opening p s.sendPart)
    (h : s.rx.ended = true ∨ SendInv p s.sendPart) (hw : s.rx.Wf) (ev : Ev) :
    Opening p (s.step p ev).1.sendPart ∧
      ((s.step p ev).1.rx.ended = true ∨ SendInv p (s.step p ev).1.sendPart) := by
  have hlive : s.rx.ended = false → SendInv p s.sendPart := fun he => by
    rcases h with h | h
    · rw [he] at h
      cases h
    · exact h
  have hs := step_sends p ho hlive ev
  refine ⟨ho.sends hs, ?_⟩
  by_cases hend : s.rx.ended = true
  · exact .inl ((s.step_wf p hw ev).2.2.2 hend)
  by_cases hev : ev = .finish
  · rw [hev]
    refine .inl ?_
    simp only [step, finish]
    rw [if_neg hend]
    exact (Rx.finish_spec s.rx).2.1
  · exact .inr ((hlive (Bool.eq_false_iff.mpr hend)).sends (not_makes_finish hev) hs)

end Session

/-- The accounting holds in every state that has not ended. -/
lemma SendInv.after (p : Params) (evs : List Ev) :
    (Session.after p evs).rx.ended = true ∨ SendInv p (Session.after p evs).sendPart := by
  refine (runFrom_inv (fun s : Session => s.rx.Wf ∧ Opening p s.sendPart ∧
    (s.rx.ended = true ∨ SendInv p s.sendPart))
    ⟨Rx.init_wf p _, .init p, .inr (SendInv.init p)⟩ fun s ev _ ⟨hw, ho, h⟩ => ?_).2.2
  exact ⟨(s.step_wf p hw ev).1, s.step_send p ho h hw ev⟩

/-- **No byte is lost by the sender** (selector, bond). In every state that has not ended, whatever
the peer sent, each unacknowledged byte that was sent is queued for retransmission or in flight on a
lane that is still attached, and the queue, the in-flight lists and a pending rescue hold nothing
that was not sent. -/
theorem sender_keeps_every_byte (p : Params) (hm : p.mode = .selector ∨ p.mode = .bond)
    (evs : List Ev) (he : (Session.after p evs).rx.ended = false) :
    (∀ x, (Session.after p evs).tx.sBase ≤ x → x < (Session.after p evs).tx.sNext →
      x ∈ (Session.after p evs).tx.retx ∨
        ∃ l ∈ (Session.after p evs).order, x ∈ ((Session.after p evs).lanes l).infl) ∧
      (∀ x ∈ (Session.after p evs).tx.retx, x < (Session.after p evs).tx.sNext) ∧
      (∀ l, ∀ x ∈ ((Session.after p evs).lanes l).infl, x < (Session.after p evs).tx.sNext) ∧
      ((Session.after p evs).tx.rescue.set = true →
        (Session.after p evs).tx.rescue.sp.endOff ≤ (Session.after p evs).tx.sNext) := by
  have hinv := SendInv.after p evs
  generalize Session.after p evs = s at hinv he
  rcases hinv with hinv | h
  · rw [he] at hinv
    cases hinv
  have hrace : p.mode ≠ .race := by
    rcases hm with hm | hm <;> rw [hm] <;> decide
  refine ⟨fun x h1 h2 => ?_, fun x hx => (h.retx_range x hx).2, fun l x hx => ((h.lane l).range x hx).2,
    fun hs => (h.rescue_range hs).2⟩
  rcases h.cover hrace x h1 h2 with hx | ⟨l, hx⟩
  · exact .inl hx
  · exact .inr ⟨l, (h.of_infl hx).2, hx⟩

/-- A batch with room for one 64 KiB chunk. -/
def Batch.roomy : Batch := ⟨0, 0, 65536, false, false, false, 0, []⟩

/-- A Fill that finds room and no ACK duty. -/
def FillIn.roomy : FillIn := ⟨.roomy, 65536, false, false, false, none, 0, 0⟩

/-- A dialer sends three bytes on lane 1, attaches lane 2 and loses lane 1. -/
def laneLost : List Ev :=
  [.write [1, 2, 3] false 1, .commit, .openOK 1 8 false ⟨false, true, false⟩, .fill 1 .roomy,
    .joinOK 2 0 ⟨false, true, false⟩, .laneDied 1 ⟨none, none, false, none, []⟩]

theorem sender_keeps_every_byte_lane_lost :
    (Session.after (.sample .bond .dialer) laneLost).tx.sNext = 3 ∧
      (2 ∈ (Session.after (.sample .bond .dialer) laneLost).tx.retx ∨
        ∃ l ∈ (Session.after (.sample .bond .dialer) laneLost).order,
          2 ∈ ((Session.after (.sample .bond .dialer) laneLost).lanes l).infl) :=
  ⟨by decide, (sender_keeps_every_byte (.sample .bond .dialer) (.inr rfl) laneLost
    (by decide)).1 2 (by decide) (by decide)⟩

/-- **No byte is lost by a race sender.** In every state that has not ended, a living data lane has
in flight all it sent above the front, no cursor is ahead of what was sent, and each unacknowledged
byte is in flight on every living data lane or not behind its cursor. Without such a lane every
cursor stands at or below it, and a lane that becomes a data lane in the next event has the byte in
flight or starts at or below it: dropping a leaving lane's spans and trimming the queue make no byte
unsendable. -/
theorem race_sender_keeps_every_byte (p : Params) (hm : p.mode = .race) (evs : List Ev)
    (he : (Session.after p evs).rx.ended = false) :
    (∀ l, ((Session.after p evs).lanes l).data = true →
      ((Session.after p evs).lanes l).state ≠ .dead →
      ∀ x, (Session.after p evs).tx.sBase ≤ x →
        x < max ((Session.after p evs).lanes l).rnext (Session.after p evs).tx.sBase →
        x ∉ (Session.after p evs).tx.retx → x ∈ ((Session.after p evs).lanes l).infl) ∧
      (∀ l, ((Session.after p evs).lanes l).rnext ≤ (Session.after p evs).tx.sNext) ∧
      (∀ x, (Session.after p evs).tx.sBase ≤ x → x < (Session.after p evs).tx.sNext →
        ∀ l, ((Session.after p evs).lanes l).data = true →
          x ∈ ((Session.after p evs).lanes l).infl ∨ ((Session.after p evs).lanes l).rnext ≤ x) ∧
      ((∀ l, ((Session.after p evs).lanes l).data = true →
          ((Session.after p evs).lanes l).state = .dead) →
        (∀ x, (Session.after p evs).tx.sBase ≤ x → x < (Session.after p evs).tx.sNext →
          ∀ l, ((Session.after p evs).lanes l).rnext ≤ x) ∧
        ∀ ev l, (Session.after p (evs ++ [ev])).rx.ended = false →
          ((Session.after p (evs ++ [ev])).lanes l).data = true →
          ∀ x, (Session.after p (evs ++ [ev])).tx.sBase ≤ x →
            x < (Session.after p (evs ++ [ev])).tx.sNext →
            x ∈ ((Session.after p (evs ++ [ev])).lanes l).infl ∨
              ((Session.after p (evs ++ [ev])).lanes l).rnext ≤ x) := by
  have hlive : ∀ evs, (Session.after p evs).rx.ended = false →
      SendInv p (Session.after p evs).sendPart := fun evs he => by
    rcases SendInv.after p evs with h | h
    · rw [he] at h
      cases h
    · exact h
  -- what is behind a data lane's cursor is in flight on it
  have hbehind : ∀ evs, (Session.after p evs).rx.ended = false →
      ∀ l, ((Session.after p evs).lanes l).data = true → ∀ x, (Session.after p evs).tx.sBase ≤ x →
        x ∈ ((Session.after p evs).lanes l).infl ∨
          ((Session.after p evs).lanes l).rnext ≤ x := fun evs he l hd x h1 => by
    by_cases hx : x < ((Session.after p evs).lanes l).rnext
    · exact .inl (((hlive evs he).lane l).sent hm hd x h1 hx)
    · exact .inr (Nat.le_of_not_lt hx)
  have h := hlive evs he
  refine ⟨fun l hd _ x h1 h2 _ => ?_, fun l => (h.lane l).cursor hm,
    fun x h1 _ l hd => hbehind evs he l hd x h1, fun hnone => ⟨fun x h1 _ l => ?_,
      fun ev l he' hd x h1 _ => hbehind _ he' l hd x h1⟩⟩
  · exact (hbehind evs he l hd x h1).resolve_right (by omega)
  -- a data lane lives, so no lane is one
  have hidle : ((Session.after p evs).lanes l).data = false := by
    by_contra hd
    rw [Bool.not_eq_false] at hd
    have := ((h.lane l).routed hd).2
    simp [Session.sendPart, Lane.send, hnone l hd] at this
  exact le_trans ((h.lane l).rewound hm hidle) h1

theorem race_sender_keeps_every_byte_lane_lost :
    (Session.after (.sample .race .dialer) laneLost).tx.sNext = 3 ∧
      ((Session.after (.sample .race .dialer) laneLost).lanes 2).data = true ∧
      (2 ∈ ((Session.after (.sample .race .dialer) laneLost).lanes 2).infl ∨
        ((Session.after (.sample .race .dialer) laneLost).lanes 2).rnext ≤ 2) :=
  ⟨by decide, by decide, (race_sender_keeps_every_byte (.sample .race .dialer) rfl laneLost
    (by decide)).2.2.1 2 (by decide) (by decide) 2 (by decide)⟩

/-- **A Read in progress.** In every state of a session, whatever arrived, was written or closed
while a Read copies outside the lock, the bytes it copies are unread, in order and held at their
offsets until it commits or the session is closed; consumed segments are kept for it only once the
session was closed or ended, and otherwise released. -/
theorem read_view_held (p : Params) (evs : List Ev) :
    let rx := (Session.after p evs).rx
    (rx.rcopying = true → rx.closed = false → ∀ i v, rx.rview[i]? = some v →
      rx.rRead + i < rx.rTail ∧ Holds rx.inq.toList (rx.rRead + i) v) ∧
    if rx.rfreePending then rx.rcopying = true ∧ (rx.closed = true ∨ rx.ended = true)
      else ∀ sg ∈ rx.inq.toList, rx.rRead < sg.endOff := by
  intro rx
  have hw : rx.Wf := runFrom_inv (fun s : Session => s.rx.Wf) (Rx.init_wf p _)
    fun s ev _ h => (s.step_wf p h ev).1
  refine ⟨fun hc ho i v => hw.view hc ho, ?_⟩
  split
  next hf => exact ⟨hw.free_copying hf, hw.free_why hf⟩
  next hf => exact hw.released (Bool.eq_false_iff.mpr hf)

/-- **The replay goes first**, in every state of a session: a Fill whose batch is `Ordered` sends
new bytes only if it leaves nothing queued for retransmission. -/
theorem fill_replays_first (p : Params) (evs : List Ev) (l : LaneId) (i : FillIn) :
    let s := Session.after p evs
    s.rx.ended = true ∨ p.mode = .race ∨ ¬ s.Ordered p i ∨
      (s.fill p l i).1.tx.sNext = s.tx.sNext ∨ (s.fill p l i).1.tx.retx.s = [] := by
  intro s
  rcases SendInv.after p evs with hend | hinv
  · exact .inl hend
  by_cases hm : p.mode = .race
  · exact .inr (.inl hm)
  by_cases ho : s.Ordered p i
  · refine .inr (.inr (.inr ?_))
    refine (s.fill_sends (p := p) l i fun _ => hinv).inv
      (fun _ v => v.sNext = s.tx.sNext ∨ v.retx.s = []) (.inl rfl) fun _ v m hok hg h => ?_
    cases m with
    | fresh j k c => exact .inr (hg.2.2.2.2.2.1.mp (hok.2.2 ho))
    | replay j k => exact .inl (h.resolve_right hg.2.2.1)
    | race j k => exact absurd hg.2.1 hm
    | trim x => exact absurd hg hm
    | advance | leave | verdict | finish => cases hok
    | _ => exact h
  · exact .inr (.inr (.inl ho))

/-! ### What is sent -/

open List SendPart Session

variable {p : Params} {v : SendPart}

/-- What a frame tells is so: DATA carries the bytes written at its offsets, a segment of them at
most, and all the bytes before a FIN were sent. -/
def SendPart.Tells (p : Params) (v : SendPart) : Frame → Prop
  | .data off bs => bs.length ≤ p.segment ∧ off + bs.length ≤ v.endOff ∧
      bs = v.bytesAt off bs.length
  | .fin off => v.finReq = true ∧ off = v.finOff ∧ off ≤ v.sNext
  | _ => True

lemma SendPart.Tells.move {f : Frame} (h : v.Tells p f) (m : Mv) (hg : m.Guard p v) :
    (m.apply p v).Tells p f := by
  cases f with
  | data off bs =>
    cases m with
    | commit =>
      -- a round is put behind what was committed
      refine ⟨h.1, le_trans h.2.1 (Nat.le_add_right _ _), h.2.2.trans ?_⟩
      refine map_congr_left fun i hi => (if_neg ?_).symm
      have := h.2.1
      have := mem_range.mp hi
      omega
    | _ => exact h
  | fin off =>
    cases m with
    | request => exact absurd h.1 (Bool.eq_false_iff.mp hg)
    | verdict _ _ | race _ _ => exact ⟨h.1, h.2.1, le_trans h.2.2 (le_max_left _ _)⟩
    | fresh _ _ _ => exact ⟨h.1, h.2.1, le_trans h.2.2 (Nat.le_add_right _ _)⟩
    | _ => exact h
  | _ => trivial

lemma SendInv.tells (h : SendInv p v) (m : Mv) (hg : m.Guard p v) : ∀ f ∈ m.out v, v.Tells p f := by
  have hdata : ∀ off k, k ≤ p.segment → off + k ≤ v.endOff →
      ∀ f ∈ [Frame.data off (v.bytesAt off k)], v.Tells p f := by
    intro off k h1 h2 f hf
    rw [mem_singleton.mp hf]
    simpa [Tells, bytesAt] using ⟨h1, h2⟩
  have hend := h.next_le
  cases m with
  | again l k =>
    obtain ⟨_, hr, _, h1, h2, _⟩ := hg
    have := (h.rescue_range hr).2
    exact hdata _ _ h1 (by unfold Span.endOff at this; omega)
  | replay l k =>
    obtain ⟨_, _, hne, h0, h1, h2, _⟩ := hg
    obtain ⟨t, hcons⟩ := head_eq hne
    have hlt : (Mv.head v).off + (k - 1) < (Mv.head v).off + (Mv.head v).n := by omega
    have := (h.retx_range _ (SpanList.mem_head hcons (Nat.le_add_right _ _) hlt)).2
    exact hdata _ _ h1 (by omega)
  | fresh l k c =>
    obtain ⟨_, _, _, h1, h2, _⟩ := hg
    exact hdata _ _ h1 (by omega)
  | race l k =>
    obtain ⟨_, _, _, h1, _, h2⟩ := hg
    exact hdata _ _ h1 (by omega)
  | finOut l =>
    obtain ⟨_, hreq, hs, hr⟩ := hg
    intro f hf
    rw [mem_singleton.mp hf]
    refine ⟨hreq, rfl, ?_⟩
    by_cases hm : p.mode = .race
    · exact (hr hm).trans (max_le ((h.lane l).cursor hm) h.base_le)
    · exact (hs hm).2
  | firstOut l fr => cases fr <;> simp [Mv.out, First.frame, Tells]
  | _ => simp [Mv.out, Tells]

/-- The state a run leads to and all the frames it places. -/
def Session.placed (p : Params) (evs : List Ev) : Session × List Frame :=
  runFrom (fun r ev => ((r.1.step p ev).1, r.2 ++ (r.1.step p ev).2.1)) (.init p, []) evs

/-- **What is sent is what was written**, over a whole run and in every mode: until the session
ends, every DATA frame it placed, new, replayed, as a rescue or on a race lane, carries the bytes
written at its offsets, and a FIN comes only once all the bytes before it were sent. -/
theorem sent_as_written (p : Params) (evs : List Ev) :
    (placed p evs).1.rx.ended = true ∨
      ∀ f ∈ (placed p evs).2, (placed p evs).1.sendPart.Tells p f := by
  refine (runFrom_inv (fun r : Session × List Frame => r.1.rx.Wf ∧ Opening p r.1.sendPart ∧
    (r.1.rx.ended = true ∨ SendInv p r.1.sendPart ∧ ∀ f ∈ r.2, r.1.sendPart.Tells p f))
    ⟨Rx.init_wf p _, .init p, .inr ⟨SendInv.init p, by simp⟩⟩
    fun r ev _ hr => ?_).2.2.imp_right And.right
  obtain ⟨hw, ho, h⟩ := hr
  obtain ⟨hwf, _, _, hend⟩ := r.1.step_wf p hw ev
  refine ⟨hwf, (r.1.step_send p ho (h.imp_right And.left) hw ev).1, ?_⟩
  by_cases he : (r.1.step p ev).1.rx.ended = true
  · exact .inl he
  have hlive := fun hr => he (hend hr)
  obtain ⟨hinv, hall⟩ := h.resolve_left hlive
  have hev : ev ≠ .finish := by
    rintro rfl
    simp only [step, finish] at he
    rw [if_neg hlive] at he
    exact he (Rx.finish_spec r.1.rx).2.1
  refine .inr ((step_sends p ho (fun _ => hinv) ev).inv
    (fun gs v => SendInv p v ∧ ∀ f ∈ r.2 ++ gs, v.Tells p f) ⟨hinv, by simpa using hall⟩
    fun gs v m hm hg hv =>
      ⟨hv.1.move m (fun hf => not_makes_finish hev (hf ▸ hm)) hg, fun f hf => ?_⟩)
  rw [← append_assoc] at hf
  rcases mem_append.mp hf with hf | hf
  · exact (hv.2 f hf).move m hg
  · exact (hv.1.tells m hg f hf).move m hg

end Rendr
