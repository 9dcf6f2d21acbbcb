import Rendr.Session.SendFill

/-!
# The DATA of a Fill as moves of the send side

Each loop of `fillData` and `raceFillData` is a sequence of placements, each a move. Two fields are
set at the end of the source's functions but are best read as set at the start: `interleaved`, once
a bond lane placed anything next to another data lane, and a race lane's `sNext`.

`newLoop_ordered` is the order of replay and new bytes: a Fill that is `Ordered` places new bytes
only once the queue is empty.
-/

namespace Rendr

open List Session

lemma Session.otherDataLane_iff (s : Session) (l : LaneId) :
    s.otherDataLane l = true ↔ s.sendPart.Other l := by
  unfold otherDataLane SendPart.Other
  simp only [any_eq_true, Bool.and_eq_true, decide_eq_true_eq]
  rfl

namespace Pull

variable {p : Params} {l : LaneId} {ok : Mv → Prop}

/-! ### When a frame is refused -/

/-- No DATA frame of any size is taken. -/
def Blocked (b : Batch) : Prop := b.full = true ∨ b.ctlOnly = true ∨ b.holdOn = true

/-- The size of the next frame for `n` bytes at `off`, before it is cut to the room. -/
def frameLen (p : Params) (st : Pull) (off n : Nat) : Nat :=
  min (min n (st.s.tx.chunkEnd off - off)) p.segment

variable {st : Pull}

lemma addData_refused {off n : Nat} (hn : 0 < n)
    (h : (st.addData p l off n).1 = 0) :
    Blocked st.b ∨ (st.b.room.toNat < frameLen p st off n ∧
      (st.sent = true ∨ st.b.room.toNat = 0)) := by
  have hchunk := st.s.tx.lt_chunkEnd off
  have hseg := p.segment_pos
  unfold addData at h
  simp only at h
  split at h
  next hr => exact .inr hr
  rename_i hr
  split at h
  next hb =>
    left
    unfold Batch.addData at hb
    split at hb
    next hc =>
      rw [Tx.length_bytesAt] at hc
      rcases hc with hc | hc | hc | hc
      · exact .inl hc
      · -- the frame was cut to the room
        exact absurd ⟨by omega, .inr (by omega)⟩ hr
      · exact .inr (.inl hc)
      · exact .inr (.inr hc)
    · cases hb
  · -- a placed frame is not empty
    exact absurd ⟨by omega, .inr (by omega)⟩ hr

lemma addData_stuck {off n : Nat}
    (h : Blocked st.b ∨ (st.b.room.toNat < frameLen p st off n ∧
      (st.sent = true ∨ st.b.room.toNat = 0))) : st.addData p l off n = (0, st) := by
  unfold addData
  simp only
  split
  · rfl
  rename_i hr
  rcases h with h | h
  · have hnone : ∀ bs, st.b.addData off bs = none := fun bs => by
      unfold Batch.addData
      rw [if_pos]
      rcases h with h | h | h
      · exact .inl h
      · exact .inr (.inr (.inl h))
      · exact .inr (.inr (.inr h))
    rw [hnone]
  · exact absurd h hr

/-- A loop that finds nothing to do, or is refused at once, does nothing. -/
lemma pullLoop_stuck {q : Loop} (hprep : ∀ s, q.prep s = s)
    (h : q.live st = false ∨ st.addData p l (q.next st.s).1 (q.next st.s).2 = (0, st))
    (fuel : Nat) : pullLoop p l q fuel st = st := by
  cases fuel with
  | zero => rfl
  | succ fuel =>
    rw [pullLoop]
    rcases h with h | h
    · rw [h]
      rfl
    · split
      · simp [hprep, h]
      · rfl

/-! ### Replay before new bytes -/

/-- What the rescue and the replay leave alone. -/
structure Still (st st' : Pull) : Prop where
  next : st'.s.tx.sNext = st.s.tx.sNext
  limit : st'.s.sendLimit = st.s.sendLimit
  chunk : st'.s.tx.chunkEnd = st.s.tx.chunkEnd

/-- A placement that a loop records without touching the counters leaves them alone. -/
lemma Placed.still {off n k : Nat} {st0 st st' : Pull} (h : Still st0 st)
    (hp : Placed p l off n st k st') {s : Session} (h1 : s.tx.sNext = st'.s.tx.sNext)
    (h2 : s.sendLimit = st'.s.sendLimit) (h3 : s.tx.cbase = st'.s.tx.cbase) :
    Still st0 { st' with s := s } := by
  have htx : st'.s.tx = st.s.tx := by
    rw [hp.s_eq]
    rfl
  refine ⟨?_, ?_, ?_⟩
  · exact (h1.trans (congrArg Tx.sNext htx)).trans h.next
  · rw [← h.limit]
    refine h2.trans ?_
    unfold sendLimit
    rw [htx]
  rw [← h.chunk]
  funext x
  unfold Tx.chunkEnd
  rw [h3, htx]

lemma retxLoop_head (hlive : retxLoop.live st = true) :
    ∃ sp t, st.s.tx.retx.s = sp :: t ∧ retxLoop.next (retxLoop.prep st.s) = (sp.off, sp.n) := by
  have hne : st.s.tx.retx.s ≠ [] := by
    simp only [retxLoop, Bool.and_eq_true, decide_eq_true_eq] at hlive
    exact hlive.2
  obtain ⟨sp, t, hcons⟩ := exists_cons_of_ne_nil hne
  exact ⟨sp, t, hcons, by simp only [retxLoop, hcons]⟩

variable {st0 st : Pull}

/-- The replay leaves the counters alone, and what fits the room fits it after each frame. -/
lemma retxLoop_still (fuel : Nat) (h : Still st0 st) :
    Still st0 (pullLoop p l retxLoop fuel st) ∧
      ((st.s.tx.retx.bytes : Int) ≤ st.b.room →
        ((pullLoop p l retxLoop fuel st).s.tx.retx.bytes : Int) ≤
          (pullLoop p l retxLoop fuel st).b.room) := by
  refine pullLoop_inv (fun st' => Still st0 st' ∧ ((st.s.tx.retx.bytes : Int) ≤ st.b.room →
    (st'.s.tx.retx.bytes : Int) ≤ st'.b.room)) (fun st _ => retxLoop_next st) (fun _ h _ => h)
    (fun st1 k st' h hlive hp => ?_) fuel ⟨h, id⟩
  obtain ⟨sp, t, hcons, hnext⟩ := retxLoop_head hlive
  unfold Places at hp
  rw [hnext] at hp
  have hp : Placed p l sp.off sp.n st1 k st' := hp
  refine ⟨hp.still h.1 rfl rfl rfl, fun hle => ?_⟩
  have hbytes := SpanList.bytes_takeFront hcons hp.le
  have htx : st'.s.tx = st1.s.tx := by
    rw [hp.s_eq]
    rfl
  have hroom := hp.room_eq
  have h2 := h.2 hle
  show ((st'.s.tx.retx.takeFront k).bytes : Int) ≤ st'.b.room
  rw [htx, hroom]
  omega

/-- The rescue leaves the counters and the queue alone, and takes its own bytes of the room. -/
lemma fillRescue_still (h : Still st0 st) :
    Still st0 (st.fillRescue p l) ∧ (st.fillRescue p l).s.tx.retx = st.s.tx.retx ∧
      (((if st.s.tx.rescue.set then st.s.tx.rescue.sp.n else 0) + st.s.tx.retx.bytes : Int) ≤
        st.b.room → (st.s.tx.retx.bytes : Int) ≤ (st.fillRescue p l).b.room) := by
  unfold fillRescue
  split
  next hc =>
    rw [if_pos hc.1]
    have hloop := pullLoop_inv (p := p) (l := l) (q := rescueLoop)
      (fun st' : Pull => Still st0 st' ∧ st'.s.tx.retx = st.s.tx.retx ∧
        ((st.s.tx.rescue.sp.n + st.s.tx.retx.bytes : Int) ≤ st.b.room →
          (st'.s.tx.rescue.sp.n + st.s.tx.retx.bytes : Int) ≤ st'.b.room))
      (fun st _ => rescueLoop_next st) (fun _ h _ => h) (fun st1 k st' h _ hp => by
        have hp : Placed p l st1.s.tx.rescue.sp.off st1.s.tx.rescue.sp.n st1 k st' := hp
        have htx : st'.s.tx = st1.s.tx := by
          rw [hp.s_eq]
          rfl
        have hle := hp.le
        have hroom := hp.room_eq
        refine ⟨hp.still h.1 rfl rfl rfl, ?_, fun hr => ?_⟩
        · show st'.s.tx.retx = _
          rw [htx]
          exact h.2.1
        have h2 := h.2.2 hr
        show ((st'.s.tx.rescue.sp.n - k : Nat) + st.s.tx.retx.bytes : Int) ≤ st'.b.room
        rw [htx, hroom]
        omega) maxBatchFrames ⟨h, rfl, id⟩
    simp only
    split
    · refine ⟨hloop.1, hloop.2.1, fun hr => ?_⟩
      have := hloop.2.2 hr
      omega
    refine ⟨{ hloop.1 with }, hloop.2.1, fun hr => ?_⟩
    have := hloop.2.2 hr
    show (st.s.tx.retx.bytes : Int) ≤ (pullLoop p l rescueLoop maxBatchFrames st).b.room
    omega
  · refine ⟨h, rfl, fun hr => ?_⟩
    split at hr <;> omega

/-- **An ordered Fill places new bytes only once the queue is empty**: where the replay stops short,
the loop for new bytes does nothing. -/
lemma newLoop_ordered {i : FillIn} (hord : st0.s.Ordered p i)
    (hroom : st0.b.room = i.b.room) (hst : st = st0.fillRescue p l) :
    (pullLoop p l retxLoop maxBatchFrames st).s.tx.retx.s = [] ∨
      pullLoop p l newLoop maxBatchFrames (pullLoop p l retxLoop maxBatchFrames st) =
        pullLoop p l retxLoop maxBatchFrames st := by
  have hsame : Still st0 st0 := ⟨rfl, rfl, rfl⟩
  obtain ⟨hs1, hretx, hfit⟩ := fillRescue_still (p := p) (l := l) hsame
  rw [← hst] at hs1 hretx hfit
  obtain ⟨hs, hbytes⟩ := retxLoop_still (p := p) (l := l) maxBatchFrames hs1
  have hdone := pullLoop_done (p := p) (l := l) (q := retxLoop) retxLoop_next maxBatchFrames
    (Nat.le_add_left _ st.b.n) fun _ => rfl
  -- an empty queue stays empty
  have hnil : st.s.tx.retx.s = [] → (pullLoop p l retxLoop maxBatchFrames st).s.tx.retx.s = [] := by
    intro hn
    rw [pullLoop_stuck (fun _ => rfl) (.inl (by simp [retxLoop, hn]))]
    exact hn
  generalize pullLoop p l retxLoop maxBatchFrames st = st1 at hs hbytes hdone hnil
  by_cases hq : st1.s.tx.retx.s = []
  · exact .inl hq
  right
  obtain ⟨sp, t, hcons⟩ := exists_cons_of_ne_nil hq
  have hpos : 0 < sp.n := by
    have hw := st1.s.tx.retx.wf
    rw [hcons] at hw
    exact hw.2.1
  have hnew : newLoop.next st1.s = (st0.s.tx.sNext, st0.s.sendLimit - st0.s.tx.sNext) := by
    have h1 := hs.limit
    unfold sendLimit at h1 ⊢
    simp only [newLoop, hs.next, h1]
  have hidle : st0.s.sendLimit ≤ st0.s.tx.sNext → newLoop.live st1 = false := fun hle => by
    have h1 := hs.limit
    unfold sendLimit at h1 hle
    have h2 := hs.next
    simp only [newLoop, Bool.and_eq_false_iff, decide_eq_false_iff_not]
    omega
  rcases hdone with hdead | hrefused
  · -- the capacity is gone
    refine pullLoop_stuck (fun _ => rfl) (.inl ?_) _
    simp only [retxLoop, ne_eq, hcons, Bool.and_eq_false_iff, decide_eq_false_iff_not,
      reduceCtorEq, not_false_eq_true, decide_true, Bool.true_eq_false,
      or_false] at hdead
    simp [newLoop, hdead]
  have hnext : retxLoop.next (retxLoop.prep st1.s) = (sp.off, sp.n) := by
    simp only [retxLoop, hcons]
  rw [hnext] at hrefused
  have hrefused : (st1.addData p l sp.off sp.n).1 = 0 := hrefused
  rcases addData_refused hpos hrefused with hb | ⟨hlt, hwhy⟩
  · exact pullLoop_stuck (fun _ => rfl) (.inr (addData_stuck (.inl hb))) _
  have hlen : frameLen p st1 sp.off sp.n ≤ sp.n ∧ frameLen p st1 sp.off sp.n ≤ p.segment := by
    unfold frameLen
    omega
  rcases hord with h | h | h | h
  · exact absurd (hnil (by rw [hretx]; exact h)) hq
  · exact pullLoop_stuck (fun _ => rfl) (.inl (hidle h)) _
  · -- the next new frame is no shorter than the replay segment
    refine pullLoop_stuck (fun _ => rfl) (.inr (addData_stuck (.inr ⟨?_, hwhy⟩))) _
    rw [hnew]
    unfold frameLen
    rw [hs.chunk]
    show _ < min (min (st0.s.sendLimit - st0.s.tx.sNext)
      (st0.s.tx.chunkEnd st0.s.tx.sNext - st0.s.tx.sNext)) p.segment
    omega
  -- the whole queue fits the room
  have h1 := hbytes (by rw [hretx]; exact hfit (hroom ▸ h))
  have h2 := SpanList.head_le_bytes hcons
  omega

/-! ### The loops as moves -/

/-- What a placement does to the send part. -/
lemma Placed.sendPart {off n k : Nat} {st st' : Pull} (h : Placed p l off n st k st') :
    st'.s.sendPart = Mv.place st.s.sendPart l off k := by
  rw [h.s_eq, setLane_sendPart_eq]
  rfl

/-- The send part with the interleaving `x`. -/
def withInter (x : Bool) (v : SendPart) : SendPart := { v with interleaved := x }

/-- **What the DATA part of a Fill on `l` has done so far.** Read with any interleaving `x` that is
right in the end, it appended what its moves from `v` emit. A bond lane that placed a frame next to
another data lane (`other`) is right only with `x = true`. -/
structure Did (p : Params) (l : LaneId) (ok : Mv → Prop) (v : SendPart) (out : List Frame)
    (other : Prop) (st : Pull) : Prop where
  data : (st.s.lanes l).data = true
  other_iff : st.s.sendPart.Other l ↔ other
  inter : st.s.tx.interleaved = v.interleaved
  moves : ∀ x, (st.sent = true → p.mode = .bond → x = true ∨ ¬ other) →
    ∃ fs, st.b.out = out ++ fs ∧ Sends p ok (withInter x v) fs (withInter x st.s.sendPart)

namespace Did

variable {v : SendPart} {out : List Frame} {other : Prop} {st st' : Pull} {off n k : Nat}

/-- The placement of one frame, recorded by the loop in `s`, is the move `m`. -/
lemma place (h : Did p l ok v out other st) (hp : Placed p l off n st k st') {s : Session} (m : Mv)
    (hok : ok m) (hd : (s.lanes l).data = (st'.s.lanes l).data)
    (hother : s.sendPart.Other l ↔ st'.s.sendPart.Other l)
    (hinter : s.tx.interleaved = st'.s.tx.interleaved)
    (hg : ∀ x, (p.mode = .bond → x = true ∨ ¬ (withInter x st.s.sendPart).Other l) →
      m.Guard p (withInter x st.s.sendPart))
    (happly : ∀ x, m.apply p (withInter x st.s.sendPart) = withInter x s.sendPart)
    (hout : ∀ x, m.out (withInter x st.s.sendPart) = [.data off (st.s.tx.bytesAt off k)]) :
    Did p l ok v out other { st' with s := s } := by
  have hdata : (st'.s.lanes l).data = (st.s.lanes l).data := by
    rw [hp.s_eq, setLane_self]
  -- placing changes neither the attached lanes nor which of them carry data
  have hoth : st'.s.sendPart.Other l ↔ st.s.sendPart.Other l := by
    rw [hp.sendPart]
    unfold SendPart.Other Mv.place
    constructor
    · rintro ⟨o, ho, hne, hdo⟩
      rw [SendPart.setLane_ne _ _ hne] at hdo
      exact ⟨o, ho, hne, hdo⟩
    rintro ⟨o, ho, hne, hdo⟩
    refine ⟨o, ho, hne, ?_⟩
    rw [SendPart.setLane_ne _ _ hne]
    exact hdo
  have hint : st'.s.tx.interleaved = st.s.tx.interleaved := by
    rw [hp.s_eq]
    rfl
  refine ⟨(hd.trans hdata).trans h.data, (hother.trans hoth).trans h.other_iff,
    (hinter.trans hint).trans h.inter, fun x hx => ?_⟩
  have hx := hx hp.sent_eq
  obtain ⟨fs, h1, h2⟩ := h.moves x fun _ => hx
  refine ⟨fs ++ [.data off (st.s.tx.bytesAt off k)], ?_, ?_⟩
  · show st'.b.out = _
    rw [hp.out_eq, h1, append_assoc]
  have := Machine.Steps.move h2 m hok (hg x fun hb => (hx hb).imp id fun hn hc =>
    hn (h.other_iff.mp hc))
  rw [show (sendMachine p).out _ m = _ from hout x,
    show (sendMachine p).apply _ m = _ from happly x] at this
  exact this

end Did

section Loops

variable {v : SendPart} {out : List Frame} {other : Prop}

lemma rescueLoop_did (hagain : ∀ k, ok (.again l k)) (fuel : Nat)
    (hset : st.s.tx.rescue.set = true) (h : Did p l ok v out other st) :
    Did p l ok v out other (pullLoop p l rescueLoop fuel st) ∧
      (pullLoop p l rescueLoop fuel st).s.tx.rescue.set = true ∧
      (pullLoop p l rescueLoop fuel st).s.tx.rescue.holder = st.s.tx.rescue.holder := by
  refine pullLoop_inv (fun st' => Did p l ok v out other st' ∧ st'.s.tx.rescue.set = true ∧
    st'.s.tx.rescue.holder = st.s.tx.rescue.holder) (fun st _ => rescueLoop_next st)
    (fun _ h _ => h) (fun st1 k st' h _ hp => ?_) fuel ⟨h, hset, rfl⟩
  obtain ⟨h, hset, hh⟩ := h
  have hp : Placed p l st1.s.tx.rescue.sp.off st1.s.tx.rescue.sp.n st1 k st' := hp
  have htx : st'.s.tx = st1.s.tx := by
    rw [hp.s_eq]
    rfl
  refine ⟨h.place hp (.again l k) (hagain k) rfl Iff.rfl rfl ?_ ?_ fun _ => rfl, ?_, ?_⟩
  · exact fun x hx => ⟨h.data, hset, hp.pos, hp.segment, hp.le, hx⟩
  · intro x
    have := congrArg (fun w : SendPart => withInter x { w with
      rescue := { st'.s.tx.rescue with
        sp := ⟨st'.s.tx.rescue.sp.off + k, st'.s.tx.rescue.sp.n - k⟩ } }) hp.sendPart
    refine Eq.trans ?_ this.symm
    rw [htx]
    rfl
  · show st'.s.tx.rescue.set = true
    rw [htx]
    exact hset
  · show st'.s.tx.rescue.holder = _
    rw [htx]
    exact hh

lemma fillRescue_did (hagain : ∀ k, ok (.again l k)) (hdone : ∀ o, ok (.rescueDone o))
    (h : Did p l ok v out other st) : Did p l ok v out other (st.fillRescue p l) := by
  refine guard h fun hc => ?_
  obtain ⟨h1, hset, hh⟩ := rescueLoop_did hagain maxBatchFrames hc.1 h
  simp only
  generalize pullLoop p l rescueLoop maxBatchFrames st = st1 at h1 hset hh
  split
  · exact h1
  rename_i hn
  -- the duplicate is out: the slot is cleared, or stays as the holder's record
  refine { h1 with moves := fun x hx => ?_ }
  obtain ⟨fs, hf, hs⟩ := h1.moves x hx
  refine ⟨fs, hf, ?_⟩
  by_cases hown : st.s.tx.rescue.holder = some l
  · refine Sends.silent hs (.rescueDone (some l)) (hdone _) ⟨hset, by
      show st1.s.tx.rescue.sp.n = 0
      omega, fun o ho => ?_⟩ ?_ rfl
    · cases ho
      exact hh.trans hown
    · simp only [hown, decide_true, if_true]
      rfl
  refine Sends.silent hs (.rescueDone none) (hdone _) ⟨hset, by
    show st1.s.tx.rescue.sp.n = 0
    omega, fun o ho => by cases ho⟩ ?_ rfl
  simp only [hown, decide_false, Bool.false_eq_true, if_false]
  rfl

lemma retxLoop_did (hm : p.mode ≠ .race) (hreplay : ∀ k, ok (.replay l k)) (fuel : Nat)
    (h : Did p l ok v out other st) : Did p l ok v out other (pullLoop p l retxLoop fuel st) := by
  refine pullLoop_inv (Did p l ok v out other) (fun st _ => retxLoop_next st) (fun _ h _ => h)
    (fun st k st' h hlive hp => ?_) fuel h
  obtain ⟨sp, t, hcons, hnext⟩ := retxLoop_head hlive
  unfold Places at hp
  rw [hnext] at hp
  have hp : Placed p l sp.off sp.n st k st' := hp
  have htx : st'.s.tx = st.s.tx := by
    rw [hp.s_eq]
    rfl
  have hhead : ∀ x, Mv.head (withInter x st.s.sendPart) = sp := fun x => by
    show st.s.tx.retx.s.headD _ = sp
    rw [hcons]
    rfl
  refine h.place hp (.replay l k) (hreplay k) rfl Iff.rfl rfl ?_ ?_ fun x => ?_
  · refine fun x hx => ⟨h.data, hm, ?_, hp.pos, hp.segment, ?_, hx⟩
    · show st.s.tx.retx.s ≠ []
      rw [hcons]
      exact cons_ne_nil _ _
    · rw [hhead]
      exact hp.le
  · intro x
    have := congrArg (fun w : SendPart => withInter x { w with
      retx := st'.s.tx.retx.takeFront k }) hp.sendPart
    refine Eq.trans ?_ this.symm
    simp only [Mv.apply, hhead]
    rw [htx]
    rfl
  · simp only [Mv.out, hhead]
    rfl

/-- New bytes; with the queue empty if `ord`. -/
lemma newLoop_did (hm : p.mode ≠ .race) {ord : Prop}
    (hfresh : ∀ k clear, (ord → clear = true) → ok (.fresh l k clear)) (fuel : Nat)
    (hclear : ord → st.s.tx.retx.s = []) (h : Did p l ok v out other st) :
    Did p l ok v out other (pullLoop p l newLoop fuel st) := by
  refine (pullLoop_inv (fun st => Did p l ok v out other st ∧ (ord → st.s.tx.retx.s = []))
    (fun st _ => newLoop_next st) (fun _ h _ => h) (fun st k st' h _ hp => ?_) fuel
    ⟨h, hclear⟩).1
  obtain ⟨h, hclear⟩ := h
  have hp : Placed p l st.s.tx.sNext (min st.s.tx.endOff st.s.tx.peerLimit - st.s.tx.sNext) st k
    st' := hp
  have htx : st'.s.tx = st.s.tx := by
    rw [hp.s_eq]
    rfl
  have hle := hp.le
  have hpos := hp.pos
  refine ⟨h.place hp (.fresh l k (decide (st.s.tx.retx.s = [])))
    (hfresh k _ fun ho => decide_eq_true (hclear ho)) rfl Iff.rfl rfl ?_ ?_ fun _ => rfl, ?_⟩
  · refine fun x hx => ⟨h.data, hm, hp.pos, hp.segment, ?_, decide_eq_true_iff, hx⟩
    show st.s.tx.sNext + k ≤ min st.s.tx.endOff st.s.tx.peerLimit
    omega
  · intro x
    have := congrArg (fun w : SendPart => withInter x { w with
      sNext := st'.s.tx.sNext + k }) hp.sendPart
    refine Eq.trans ?_ this.symm
    rw [htx]
    rfl
  · show ord → st'.s.tx.retx.s = []
    rw [htx]
    exact hclear

end Loops

/-- The interleaving a bond lane's Fill ends with, set at its start. -/
lemma interleave_sends {v : SendPart} (hok : ok .interleave) (hm : p.mode = .bond) :
    Sends p ok v [] (withInter true v) :=
  Sends.of_move .interleave hok hm rfl rfl

/-- The DATA of a Fill as moves; new bytes only with the queue empty if the Fill is ordered. -/
lemma fillData_fills {i : FillIn} (st : Pull) (hm : p.mode ≠ .race)
    (hd : (st.s.lanes l).data = true) (hroom : st.b.room = i.b.room)
    (hsettle : ok .settle) (hinter : ok .interleave) (hagain : ∀ k, ok (.again l k))
    (hdone : ∀ o, ok (.rescueDone o)) (hreplay : ∀ k, ok (.replay l k))
    (hfresh : ∀ k clear, (st.s.Ordered p i → clear = true) → ok (.fresh l k clear)) :
    Fills p ok st.s.sendPart st.b (st.fillData p l).s.sendPart (st.fillData p l).b ∧
      ((st.fillData p l).s.lanes l).data = true := by
  -- the interleaving is over once nothing is unacknowledged
  let st0 : Pull := { st with s := st.s.withTx fun t =>
    { t with interleaved := if t.sBase = t.sNext then false else t.interleaved } }
  have h0 : Sends p ok st.s.sendPart [] st0.s.sendPart :=
    Sends.of_move .settle hsettle trivial rfl rfl
  have d0 : Did p l ok st0.s.sendPart st.b.out (st0.s.sendPart.Other l) st0 :=
    ⟨hd, Iff.rfl, rfl, fun x _ => ⟨[], (append_nil _).symm, .refl⟩⟩
  have d1 := retxLoop_did hm hreplay maxBatchFrames (fillRescue_did hagain hdone d0)
  have hord := fun ho : st0.s.Ordered p i => newLoop_ordered (l := l) ho hroom rfl
  -- an ordered Fill stops here, unless the queue is empty
  have d2 : Did p l ok st0.s.sendPart st.b.out (st0.s.sendPart.Other l)
      (pullLoop p l newLoop maxBatchFrames
        (pullLoop p l retxLoop maxBatchFrames (st0.fillRescue p l))) := by
    by_cases ho : st.s.Ordered p i
    · rcases hord ho with hnil | hstop
      · exact newLoop_did hm hfresh maxBatchFrames (fun _ => hnil) d1
      · rw [hstop]
        exact d1
    · exact newLoop_did hm hfresh maxBatchFrames (fun h => absurd h ho) d1
  unfold fillData
  simp only
  rw [show ({ st with s := st.s.withTx fun t =>
    { t with interleaved := if t.sBase = t.sNext then false else t.interleaved } } : Pull) = st0
    from rfl]
  generalize pullLoop p l newLoop maxBatchFrames
    (pullLoop p l retxLoop maxBatchFrames (st0.fillRescue p l)) = d at d2
  split
  next hc =>
    obtain ⟨fs, hf, hs⟩ := d2.moves true fun _ _ => .inl rfl
    exact ⟨⟨fs, hf, (h0.trans (interleave_sends hinter hc.1)).trans hs⟩, d2.data⟩
  rename_i hc
  obtain ⟨fs, hf, hs⟩ := d2.moves st0.s.tx.interleaved fun h1 h2 => .inr fun h3 =>
    hc ⟨h2, h1, (d.s.otherDataLane_iff l).mpr (d2.other_iff.mpr h3)⟩
  have hsame : withInter st0.s.tx.interleaved d.s.sendPart = d.s.sendPart := by
    rw [show st0.s.tx.interleaved = d.s.tx.interleaved from d2.inter.symm]
    rfl
  rw [hsame] at hs
  exact ⟨⟨fs, hf, h0.trans hs⟩, d2.data⟩

/-! ### Race -/

/-- A race lane's Fill so far, with what was sent ending at the cursor if it is ahead. -/
structure RaceDid (p : Params) (l : LaneId) (ok : Mv → Prop) (v : SendPart) (out : List Frame)
    (st : Pull) : Prop where
  data : (st.s.lanes l).data = true
  base_le : st.s.tx.sBase ≤ (st.s.lanes l).rnext
  moves : ∃ fs, st.b.out = out ++ fs ∧
    Sends p ok v fs { st.s.sendPart with sNext := max st.s.tx.sNext (st.s.lanes l).rnext }

section RaceLoops

variable {v : SendPart} {out : List Frame} (hm : p.mode = .race)

include hm

/-- The cursor passes queued bytes. -/
lemma RaceDid.trim (htrim : ∀ x, ok (.trim x)) (h : RaceDid p l ok v out st) (x : Nat) :
    RaceDid p l ok v out
      { st with s := st.s.withTx fun t => { t with retx := t.retx.trimBelow x } } := by
  obtain ⟨fs, hf, hs⟩ := h.moves
  exact ⟨h.data, h.base_le, fs, hf, Sends.silent hs (.trim x) (htrim x) hm rfl rfl⟩

/-- The lane places a frame at its cursor, which moves behind it. -/
lemma RaceDid.place (hrace : ∀ k, ok (.race l k)) {n k : Nat} {st st' : Pull}
    (h : RaceDid p l ok v out st) (hp : Placed p l (st.s.lanes l).rnext n st k st')
    (hle : (st.s.lanes l).rnext + k ≤ min st.s.tx.endOff st.s.tx.peerLimit) :
    RaceDid p l ok v out
      { st' with s := st'.s.setLane l fun ln => { ln with rnext := ln.rnext + k } } := by
  have hrnext : (st'.s.lanes l).rnext = (st.s.lanes l).rnext := by rw [hp.s_eq, setLane_self]
  have hdata : (st'.s.lanes l).data = (st.s.lanes l).data := by rw [hp.s_eq, setLane_self]
  have htx : st'.s.tx = st.s.tx := by
    rw [hp.s_eq]
    rfl
  have hself : ((st'.s.setLane l fun ln => { ln with rnext := ln.rnext + k }).lanes l).rnext =
      (st.s.lanes l).rnext + k := by
    rw [setLane_self]
    exact congrArg (· + k) hrnext
  obtain ⟨fs, hf, hs⟩ := h.moves
  refine ⟨?_, ?_, fs ++ [.data (st.s.lanes l).rnext (st.s.tx.bytesAt (st.s.lanes l).rnext k)],
    ?_, ?_⟩
  · show ((st'.s.setLane l fun ln => { ln with rnext := ln.rnext + k }).lanes l).data = true
    rw [setLane_self]
    exact hdata.trans h.data
  · show st'.s.tx.sBase ≤ ((st'.s.setLane l fun ln => { ln with rnext := ln.rnext + k }).lanes
      l).rnext
    rw [hself, htx]
    exact le_trans h.base_le (Nat.le_add_right _ _)
  · show st'.b.out = _
    rw [hp.out_eq, hf, append_assoc]
  have hpart : (st'.s.setLane l fun ln => { ln with rnext := ln.rnext + k }).sendPart =
      st.s.sendPart.setLane l
        { st.s.sendPart.lanes l with
          infl := (st.s.sendPart.lanes l).infl.add (st.s.lanes l).rnext k
          rnext := (st.s.lanes l).rnext + k } := by
    rw [setLane_sendPart_eq, hp.sendPart]
    unfold Mv.place
    rw [SendPart.setLane_setLane, hp.s_eq, setLane_self]
    rfl
  have hmax : max st'.s.tx.sNext ((st.s.lanes l).rnext + k) =
      max (max st.s.tx.sNext (st.s.lanes l).rnext) ((st.s.lanes l).rnext + k) := by
    rw [htx]
    omega
  have := Machine.Steps.move hs (.race l k) (hrace k) ⟨h.data, hm, hp.pos, hp.segment, h.base_le,
    hle⟩
  simp only [hself, setLane_tx, hpart, hmax]
  exact this

omit hm in
lemma raceNext_le (l : LaneId) (s : Session) :
    (raceNext l s).1 ≤ min s.tx.endOff s.tx.peerLimit - (s.lanes l).rnext := by
  unfold raceNext
  simp only
  split
  · exact le_rfl
  · split <;> exact min_le_left _ _

lemma raceLoop_did (htrim : ∀ x, ok (.trim x)) (hrace : ∀ k, ok (.race l k)) (fuel : Nat)
    (h : RaceDid p l ok v out st) :
    RaceDid p l ok v out (pullLoop p l (raceLoop l) fuel st) := by
  refine pullLoop_inv (RaceDid p l ok v out) (fun st _ => raceLoop_next l st)
    (fun st h _ => h.trim hm htrim _) (fun st k st' h hlive hp => ?_) fuel h
  simp only [raceLoop, Bool.and_eq_true, decide_eq_true_eq] at hlive
  have hk := le_trans hp.le (raceNext_le l ((raceLoop l).prep st.s))
  have hk : k ≤ min st.s.tx.endOff st.s.tx.peerLimit - (st.s.lanes l).rnext := hk
  have h1 := (h.trim hm htrim (st.s.lanes l).rnext).place hm hrace hp (by
    show (st.s.lanes l).rnext + k ≤ min st.s.tx.endOff st.s.tx.peerLimit
    omega)
  show RaceDid p l ok v out { st' with s := (raceLoop l).took k st'.s }
  simp only [raceLoop]
  split
  · exact h1.trim hm htrim _
  · exact h1

/-- The DATA of a race lane's Fill as moves. -/
lemma raceFillData_fills (st : Pull) (hd : (st.s.lanes l).data = true)
    (hbase : st.s.tx.sBase ≤ st.s.tx.sNext) (hcur : (st.s.lanes l).rnext ≤ st.s.tx.sNext)
    (hlift : ok (.lift l)) (htrim : ∀ x, ok (.trim x)) (hrace : ∀ k, ok (.race l k)) :
    Fills p ok st.s.sendPart st.b (st.raceFillData p l).s.sendPart (st.raceFillData p l).b ∧
      ((st.raceFillData p l).s.lanes l).data = true := by
  -- the cursor is raised to the front at most, which was sent
  have h0 : RaceDid p l ok st.s.sendPart st.b.out { st with s := st.s.setLane l fun ln =>
      { ln with rnext := max ln.rnext st.s.tx.sBase } } := by
    have hself : ((st.s.setLane l fun ln => { ln with rnext := max ln.rnext st.s.tx.sBase }).lanes
        l).rnext = max (st.s.lanes l).rnext st.s.tx.sBase := by rw [setLane_self]
    have hmax : max st.s.tx.sNext (max (st.s.lanes l).rnext st.s.tx.sBase) = st.s.tx.sNext := by
      omega
    refine ⟨?_, ?_, [], (append_nil _).symm, ?_⟩
    · show ((st.s.setLane l fun ln => { ln with rnext := max ln.rnext st.s.tx.sBase }).lanes
          l).data = true
      rw [setLane_self]
      exact hd
    · show st.s.tx.sBase ≤ ((st.s.setLane l fun ln =>
        { ln with rnext := max ln.rnext st.s.tx.sBase }).lanes l).rnext
      rw [hself]
      exact Nat.le_max_right _ _
    · refine Sends.of_move (.lift l) hlift ⟨hm, hd⟩ ?_ rfl
      simp only [hself, setLane_tx, hmax, setLane_sendPart_eq]
      rfl
  have h1 := raceLoop_did hm htrim hrace maxBatchFrames h0
  exact ⟨h1.moves, h1.data⟩

end RaceLoops

end Pull

/-! ### The whole Fill -/

namespace Session

variable {p : Params} {ok : Mv → Prop}

/-- The moves a Fill on `l` may make that leads from `s` to `s'`. An ACK tells the delivered front
and a window within the right edge of `s'`, and its flags are those owed in `s`. -/
def FillOk (p : Params) (l : LaneId) (i : FillIn) (s s' : Session) : Mv → Prop
  | .ackOut fd dn d w => d = s'.rx.rRead ∧ w ≤ s'.rx.rightEdge - s'.rx.rRead ∧
      (fd = true → s.rx.ackFinDelivered = true) ∧ (dn = true → s.rx.ackDone = true)
  | .firstOut j _ => j = l
  | .finOut j | .lift j | .race j _ | .again j _ | .replay j _ => j = l ∧ s.rx.ended = false
  | .fresh j _ clear => j = l ∧ s.rx.ended = false ∧ (s.Ordered p i → clear = true)
  | .schedOut | .settle | .interleave | .trim _ | .rescueDone _ => True
  | _ => False

lemma fillFirst_tx (l : LaneId) (s : Session) (b : Batch) :
    (s.fillFirst p l b).2.1.tx = s.tx := by
  unfold fillFirst
  split
  · split
    · rfl
    next fr _ => cases fr <;> simp only <;> split <;> rfl
  · rfl

variable (l : LaneId) (i : FillIn) (s : Session)

lemma fillAck_tx (b : Batch) :
    (s.fillAck p l i b).1.tx = s.tx := by
  have hdelay : (s.ackDelayed l i.late).tx = s.tx := by
    unfold ackDelayed
    split <;> rfl
  have hdone : ∀ t : Session, t.maybeDone.tx = t.tx := fun t => by
    unfold maybeDone
    split <;> rfl
  have hplaced : ∀ (t : Session) (fd dn : Bool), (t.ackPlaced l fd dn).tx = t.tx := fun t fd dn => by
    unfold ackPlaced
    simp only
    split <;> split
    · exact hdone _
    · exact hdone _
    · rfl
    · rfl
  unfold fillAck
  simp only
  split
  · exact hdelay
  · split
    · exact hdelay
    · exact (hplaced _ _ _).trans hdelay

/-- The control frames leave the send state alone. -/
lemma fillControl_tx (b : Batch) :
    (s.fillControl p l i b).2.1.tx = s.tx := by
  have hfirst := s.fillFirst_tx (p := p) l b
  unfold fillControl
  generalize s.fillFirst p l b = r at hfirst
  simp only
  split
  · exact hfirst
  split
  · exact hfirst
  split
  · exact (fillAck_tx ..).trans hfirst
  · exact hfirst

lemma fillControl_ended (b : Batch)
    (h : (s.fillControl p l i b).1 = true) : s.rx.ended = false := by
  have hrx : (s.fillFirst p l b).2.1.rx = s.rx := congrArg (·.1.rx) (s.fillFirst_kept p l b)
  unfold fillControl at h
  generalize s.fillFirst p l b = r at h hrx
  simp only at h
  split at h
  next h1 =>
    rw [h1] at h
    cases h
  split at h
  · cases h
  next h1 =>
    rw [hrx] at h1
    exact Bool.eq_false_iff.mpr h1

/-- `Fill` on a lane that owes no go frame, as moves. -/
lemma fillLane_fills (b : Batch)
    (hroom : b.room = i.b.room) (h : s.rx.ended = false → SendInv p s.sendPart) (s' : Session)
    (hs' : (s.fillLane p l i b).1 = s') :
    Fills p (FillOk p l i s s') s.sendPart b s'.sendPart (s.fillLane p l i b).2 := by
  by_cases hdead : (s.lanes l).state = .dead
  · unfold fillLane at hs' ⊢
    rw [if_pos hdead] at hs' ⊢
    subst hs'
    exact .refl rfl
  -- DATA and the FIN leave the receive side alone
  have hrx : s'.rx = (s.fillControl p l i b).2.1.rx := by
    rw [← hs']
    exact congrArg (·.1.rx) (fillLane_kept l i s b hdead)
  have hack : ∀ fd dn, (fd = true → s.rx.ackFinDelivered = true) →
      (dn = true → s.rx.ackDone = true) →
      FillOk p l i s s' (.ackOut fd dn (s.fillControl p l i b).2.1.rx.rRead
        (min ((s.fillControl p l i b).2.1.rx.rightEdge -
          (s.fillControl p l i b).2.1.rx.rRead) maxUint32)) := fun fd dn h1 h2 => by
    rw [← hrx]
    exact ⟨rfl, min_le_left _ _, h1, h2⟩
  have hctl := fillControl_fills (p := p) l i s b (fun _ => rfl) trivial hack
  have htx := s.fillControl_tx (p := p) l i b
  have hend := s.fillControl_ended (p := p) l i b
  -- the accounting holds once the control frames are placed
  have hinv : (s.fillControl p l i b).1 = true →
      SendInv p (s.fillControl p l i b).2.1.sendPart := fun hgo => by
    obtain ⟨fs, _, hs⟩ := hctl.1
    exact (h (hend hgo)).sends id hs
  rw [← hs'] at hctl ⊢
  have hok : ∀ m, FillOk p l i s s' m → FillOk p l i s (s.fillLane p l i b).1 m :=
    fun _ h => hs' ▸ h
  generalize FillOk p l i s (s.fillLane p l i b).1 = ok at hctl hok ⊢
  unfold fillLane
  rw [if_neg hdead]
  simp only
  split
  next hgo =>
    have hlive := hend hgo.1
    have hfin : ∀ (t : Session) (c : Batch), (t.lanes l).data = true →
        Fills p ok t.sendPart c (t.fillFin p l c).1.sendPart (t.fillFin p l c).2 :=
      fun t c hd => fillFin_fills l t c hd (hok _ ⟨rfl, hlive⟩)
    -- DATA, unless the batch is reserved for control frames
    split
    · exact hctl.1.trans (hfin _ _ hgo.2)
    split
    next hm =>
      have hv := hinv hgo.1
      obtain ⟨h1, h2⟩ := Pull.raceFillData_fills (l := l) hm
        ⟨(s.fillControl p l i b).2.1, (s.fillControl p l i b).2.2, i.left, false⟩ hgo.2
        hv.base_le ((hv.lane l).cursor hm) (hok _ ⟨rfl, hlive⟩) (fun _ => hok _ trivial)
        fun _ => hok _ ⟨rfl, hlive⟩
      exact (hctl.1.trans h1).trans (hfin _ _ h2)
    rename_i hm
    -- the control frames change nothing the order depends on
    have hord : (s.fillControl p l i b).2.1.Ordered p i ↔ s.Ordered p i := by
      unfold Ordered sendLimit
      rw [htx]
    obtain ⟨h1, h2⟩ := Pull.fillData_fills (l := l) (i := i)
      ⟨(s.fillControl p l i b).2.1, (s.fillControl p l i b).2.2, i.left, false⟩ hm
      hgo.2 (hctl.2.1.trans hroom) (hok _ trivial) (hok _ trivial)
      (fun _ => hok _ ⟨rfl, hlive⟩) (fun _ => hok _ trivial) (fun _ => hok _ ⟨rfl, hlive⟩)
      fun k clear hc => hok _ ⟨rfl, hlive, fun ho => hc (hord.mpr ho)⟩
    exact (hctl.1.trans h1).trans (hfin _ _ h2)
  · exact hctl.1

/-- **A Fill as moves of the send side**: it places exactly the frames its moves emit. -/
lemma fill_sends
    (h : s.rx.ended = false → SendInv p s.sendPart) :
    Sends p (FillOk p l i s (s.fill p l i).1) s.sendPart (s.fill p l i).2
      (s.fill p l i).1.sendPart := by
  have hlane : ∀ (t : Session) (b : Batch), b.room = i.b.room → t.sendPart = s.sendPart →
      t.rx = s.rx → t.tx = s.tx → Fills p (FillOk p l i s (t.fillLane p l i b).1) s.sendPart b
        (t.fillLane p l i b).1.sendPart (t.fillLane p l i b).2 := fun t b hb ht hrx htx => by
    have := fillLane_fills (p := p) l i t b hb (by rw [ht, hrx]; exact h) _ rfl
    rw [ht] at this
    obtain ⟨fs, h1, h2⟩ := this
    refine ⟨fs, h1, h2.mono fun m hm => ?_⟩
    have hord : t.Ordered p i ↔ s.Ordered p i := by
      unfold Ordered sendLimit
      rw [htx]
    unfold FillOk at hm ⊢
    rw [hrx, hord] at hm
    exact hm
  unfold fill
  split
  · exact .refl
  split
  · split
    · exact .refl
    split
    · exact .refl
    -- the go frame tells the values already advertised
    rename_i b hgo
    have hadd := Batch.addAck_adds { i.b with out := [] } false false s.rx.rRead
      (min (s.rx.rightEdge - s.rx.rRead) maxUint32)
    have hroom : b.room = i.b.room := by
      have := (Batch.addSession_room { i.b with out := [] } 16 (.ack false false s.rx.rRead
        (min (s.rx.rightEdge - s.rx.rRead) maxUint32))).1
      unfold placeGo Batch.addAck at hgo
      rw [hgo] at this
      exact this
    unfold placeGo at hgo
    rw [hgo] at hadd
    obtain ⟨fs, h1, h2⟩ := hlane (s.setLane l fun ln => { ln with goOwed := false }) b hroom
      (s.setLane_sendPart l fun _ => rfl) rfl rfl
    -- what follows keeps the delivered front and the edge
    have hq := (fillLane_still (p := p) l i (s.setLane l fun ln => { ln with goOwed := false }) b).quiet
    have hread := hq.read_eq
    simp only
    rw [h1]
    simp only [Batch.Adds, if_true] at hadd
    rw [hadd]
    refine (Machine.Steps.one (M := sendMachine p) (s := s.sendPart) (.ackOut false false
      s.rx.rRead (min (s.rx.rightEdge - s.rx.rRead) maxUint32)) ⟨hread.symm, ?_, ?_, ?_⟩
      trivial).trans h2
    · rw [hread]
      exact le_trans (min_le_left _ _) (Nat.sub_le_sub_right hq.core_eq.2.1 _)
    · intro h
      cases h
    · intro h
      cases h
  obtain ⟨fs, h1, h2⟩ := hlane s { i.b with out := [] } rfl rfl rfl rfl
  simp only
  rw [h1]
  exact h2

end Session

end Rendr
