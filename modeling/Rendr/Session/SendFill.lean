import Rendr.Session.SendStep

/-!
# A Fill as moves of the send side

The frames a Fill appends and the moves that place them, in order: the go frame and the first
response, the SCHED, the ACK, DATA and the FIN. Each stage appends what its moves emit
(`Fills`).

`Ordered` says when a Fill keeps new bytes behind the replay: a batch whose room refuses the next
replay segment must not have room for the next new one.
-/

namespace Rendr

open List Batch

lemma SpanList.bytes_takeFront {l : SpanList} {sp : Span} {t : List Span} (h : l.s = sp :: t)
    {k : Nat} (hk : k ≤ sp.n) : (l.takeFront k).bytes + k = l.bytes := by
  unfold bytes takeFront
  simp only [h]
  split
  · simp only [map_cons, sum_cons]
    omega
  · simp only [map_cons, sum_cons]
    omega

lemma SpanList.head_le_bytes {l : SpanList} {sp : Span} {t : List Span} (h : l.s = sp :: t) :
    sp.n ≤ l.bytes := by
  unfold bytes
  rw [h]
  simp

/-- The end of the new bytes that may be sent. -/
def Session.sendLimit (s : Session) : Nat := min s.tx.endOff s.tx.peerLimit

/-- **A Fill that keeps new bytes behind the replay**: nothing is queued, or nothing new may be
sent, or the next new frame is a full segment, or the whole replay fits the DATA room. -/
def Session.Ordered (p : Params) (s : Session) (i : FillIn) : Prop :=
  s.tx.retx.s = [] ∨ s.sendLimit ≤ s.tx.sNext ∨
    (p.segment ≤ s.sendLimit - s.tx.sNext ∧
      p.segment ≤ s.tx.chunkEnd s.tx.sNext - s.tx.sNext) ∨
    ((if s.tx.rescue.set then s.tx.rescue.sp.n else 0) + s.tx.retx.bytes : Int) ≤ i.b.room

instance (p : Params) (s : Session) (i : FillIn) : Decidable (s.Ordered p i) := by
  unfold Session.Ordered
  infer_instance

/-- A stage of a Fill: it appends what its moves emit. -/
def Fills (p : Params) (ok : Mv → Prop) (v : SendPart) (b : Batch) (v' : SendPart) (b' : Batch) :
    Prop := ∃ fs, b'.out = b.out ++ fs ∧ Sends p ok v fs v'

namespace Fills

variable {p : Params} {ok : Mv → Prop} {v v' v'' : SendPart} {b b' b'' : Batch}

lemma refl (hb : b'.out = b.out) : Fills p ok v b v b' :=
  ⟨[], by rw [hb, append_nil], .refl⟩

lemma trans (h : Fills p ok v b v' b') (h' : Fills p ok v' b' v'' b'') :
    Fills p ok v b v'' b'' := by
  obtain ⟨fs, h1, h2⟩ := h
  obtain ⟨gs, h3, h4⟩ := h'
  exact ⟨fs ++ gs, by rw [h3, h1, append_assoc], h2.trans h4⟩

/-- An `add` of the frame a move emits: it is refused, or the move is made. -/
lemma of_adds {r : Bool × Batch} {f : Frame} (m : Mv) (hadd : Batch.Adds f b r)
    (hout : m.out v = [f]) (hok : ok m) (hg : m.Guard p v) :
    Fills p ok v b (if r.1 then m.apply p v else v) r.2 := by
  unfold Batch.Adds at hadd
  by_cases hr : r.1 = true
  · rw [if_pos hr] at hadd ⊢
    refine ⟨[f], hadd, ?_⟩
    rw [← hout]
    exact Machine.Steps.one m hok hg
  · rw [if_neg hr] at hadd ⊢
    exact refl hadd

end Fills

namespace Session

variable {p : Params} {ok : Mv → Prop}

/-! ### Control frames -/

variable (l : LaneId)

lemma fillFirst_fills (s : Session) (b : Batch) (hok : ∀ fr, ok (.firstOut l fr)) :
    Fills p ok s.sendPart b (s.fillFirst p l b).2.1.sendPart (s.fillFirst p l b).2.2 ∧
      Batch.SameRoom b (s.fillFirst p l b).2.2 := by
  unfold fillFirst
  split
  · split
    · exact ⟨.refl rfl, rfl, rfl⟩
    rename_i fr hfr
    have hset := s.setLane_sendPart_eq l fun ln => { ln with firstSent := true, first := none }
    cases fr
    case' openAck w =>
      have h := Fills.of_adds (p := p) (v := s.sendPart) (.firstOut l (.openAck w))
        (addOpenAck_adds b w) rfl (hok _) hfr
      have hroom := heldBy_room (addSessionRel_room b 10 (.openAck w))
    case' joinAck rx =>
      have h := Fills.of_adds (p := p) (v := s.sendPart) (.firstOut l (.joinAck rx))
        (addJoinAck_adds b rx) rfl (hok _) hfr
      have hroom := heldBy_room (addSessionRel_room b 9 (.joinAck rx))
    all_goals
      simp only
      split
      next hr =>
        rw [if_pos hr] at h
        refine ⟨?_, hroom⟩
        rw [hset]
        exact h
      next hr =>
        rw [if_neg hr] at h
        exact ⟨h, hroom⟩
  · exact ⟨.refl rfl, rfl, rfl⟩

lemma ackPlaced_rx (fd dn : Bool) (s : Session) :
    (s.ackPlaced l fd dn).rx.rRead = s.rx.rRead ∧
      (s.ackPlaced l fd dn).rx.rightEdge = s.rx.rightEdge := by
  have hdone : ∀ t : Session, t.maybeDone.rx.rRead = t.rx.rRead ∧
      t.maybeDone.rx.rightEdge = t.rx.rightEdge := fun t => by
    unfold maybeDone
    split <;> exact ⟨rfl, rfl⟩
  unfold ackPlaced
  simp only
  split
  · split <;> exact hdone _
  · split <;> exact ⟨rfl, rfl⟩

/-- The ACK that the stage places, with the flags of `s` and the edge of `t`, is allowed. -/
abbrev AckOk (ok : Mv → Prop) (s t : Session) : Prop :=
  ∀ fd dn, (fd = true → s.rx.ackFinDelivered = true) → (dn = true → s.rx.ackDone = true) →
    ok (.ackOut fd dn t.rx.rRead (min (t.rx.rightEdge - t.rx.rRead) maxUint32))

/-- The ACK stage; if the ACK is placed, its right edge and flags are those of the result. -/
lemma fillAck_fills (i : FillIn) (s : Session) (b : Batch)
    (hok : AckOk ok s (s.fillAck p l i b).1) :
    Fills p ok s.sendPart b (s.fillAck p l i b).1.sendPart (s.fillAck p l i b).2 ∧
      Batch.SameRoom b (s.fillAck p l i b).2 := by
  have hpart := s.fillAck_sendPart p l i b
  rw [hpart]
  -- the delay rule only schedules the ACK
  have hflags : (s.ackDelayed l i.late).rx.ackFinDelivered = s.rx.ackFinDelivered ∧
      (s.ackDelayed l i.late).rx.ackDone = s.rx.ackDone := by
    unfold ackDelayed
    split <;> exact ⟨rfl, rfl⟩
  unfold AckOk at hok
  unfold fillAck at hok ⊢
  simp only at hok ⊢
  split
  · exact ⟨.refl rfl, rfl, rfl⟩
  rename_i hgen
  rw [if_neg hgen] at hok
  generalize hrx : (s.ackDelayed l i.late).rx.raiseEdge p i.used i.max = rx at hok ⊢
  have hrxf : rx.ackFinDelivered = s.rx.ackFinDelivered ∧ rx.ackDone = s.rx.ackDone := by
    rw [← hrx]
    exact hflags
  have hadd := addAck_adds b rx.ackFinDelivered rx.ackDone rx.rRead
    (min (rx.rightEdge - rx.rRead) maxUint32)
  have hroom : Batch.SameRoom b (b.addAck rx.ackFinDelivered rx.ackDone rx.rRead
      (min (rx.rightEdge - rx.rRead) maxUint32)).2 := addSession_room b 16 _
  split
  next heq =>
    rw [heq] at hadd hroom
    exact ⟨.refl hadd, hroom⟩
  rename_i b' heq
  rw [heq] at hadd hroom hok
  obtain ⟨h1, h2⟩ := ackPlaced_rx l rx.ackFinDelivered rx.ackDone
    { s.ackDelayed l i.late with rx := rx }
  have hack := hok rx.ackFinDelivered rx.ackDone (fun h => hrxf.1.symm.trans h)
    fun h => hrxf.2.symm.trans h
  simp only [h1, h2] at hack
  exact ⟨Fills.of_adds _ hadd rfl hack trivial, hroom⟩

lemma fillControl_fills (i : FillIn) (s : Session) (b : Batch)
    (hfirst : ∀ fr, ok (.firstOut l fr)) (hsched : ok .schedOut)
    (hack : AckOk ok s (s.fillControl p l i b).2.1) :
    Fills p ok s.sendPart b (s.fillControl p l i b).2.1.sendPart (s.fillControl p l i b).2.2 ∧
      Batch.SameRoom b (s.fillControl p l i b).2.2 := by
  have h := fillFirst_fills (p := p) l s b hfirst
  have hrx : (s.fillFirst p l b).2.1.rx = s.rx := congrArg (·.1.rx) (s.fillFirst_kept p l b)
  unfold AckOk at hack
  unfold fillControl at hack ⊢
  generalize s.fillFirst p l b = r at h hack hrx
  rw [← hrx] at hack
  simp only at hack ⊢
  split
  · exact h
  rename_i hgo
  rw [if_neg hgo] at hack
  split
  · exact h
  rename_i hend
  rw [if_neg hend] at hack
  -- the SCHED, then the ACK
  have hs := fillControl_sched (i := i) (fun b1 => Fills p ok r.2.1.sendPart r.2.2 r.2.1.sendPart b1 ∧
      Batch.SameRoom r.2.2 b1) (p := p) ⟨.refl rfl, rfl, rfl⟩ fun n hrole => by
    have h1 := Fills.of_adds (p := p) (v := r.2.1.sendPart) .schedOut
      (addSched_adds r.2.2 n) rfl hsched hrole
    have hsame : (if (r.2.2.addSched n).1 = true then Mv.apply p r.2.1.sendPart .schedOut
        else r.2.1.sendPart) = r.2.1.sendPart := by
      split <;> rfl
    rw [hsame] at h1
    exact ⟨h1, addSessionRel_room ..⟩
  obtain ⟨h1, h2⟩ := hs
  split
  next hduty =>
    simp only [hduty, if_true] at hack
    obtain ⟨h3, h4⟩ := fillAck_fills (p := p) l i r.2.1 _ hack
    exact ⟨(h.1.trans h1).trans h3, (h.2.trans h2).trans h4⟩
  · exact ⟨h.1.trans h1, h.2.trans h2⟩

lemma fillFin_fills (s : Session) (b : Batch) (hd : (s.lanes l).data = true)
    (hok : ok (.finOut l)) :
    Fills p ok s.sendPart b (s.fillFin p l b).1.sendPart (s.fillFin p l b).2 := by
  rw [fillFin_sendPart]
  unfold fillFin
  split
  next hr =>
    have hg : Mv.Guard p s.sendPart (.finOut l) := by
      unfold finReady at hr
      split at hr
      next hm =>
        simp only [raceFinDue, Bool.and_eq_true, decide_eq_true_eq] at hr
        exact ⟨hd, hr.1.1.1, fun h => absurd hm h, fun _ => hr.2⟩
      next hm =>
        simp only [finDue, Bool.and_eq_true, decide_eq_true_eq] at hr
        exact ⟨hd, hr.1.1.1.1, fun _ => ⟨hr.1.2, hr.2⟩, fun h => absurd h hm⟩
    have h := Fills.of_adds (p := p) (v := s.sendPart) (.finOut l)
      (addFin_adds b s.tx.fin.off) rfl hok hg
    have hsame : ∀ c : Bool, (if c = true then Mv.apply p s.sendPart (.finOut l) else s.sendPart) =
        s.sendPart := fun c => by
      split <;> rfl
    rw [hsame] at h
    split <;> rename_i heq <;> rw [heq] at h <;> exact h
  · exact .refl rfl

end Session

end Rendr
