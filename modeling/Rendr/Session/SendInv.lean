import Rendr.Session.SendPart

/-!
# No byte is lost by the sender

The invariant of the send side over every event of one end, whatever the peer sends. Every
unacknowledged byte that was sent is queued for retransmission or in flight on an attached lane
(selector, bond); in race each data lane holds in flight everything between the acknowledged
front and its cursor, so that every byte is in flight on a data lane or still ahead of its cursor.

`SendInv` is the invariant, `SendInv.move` says that every move of the send side keeps it.
-/

namespace Rendr

open List SpanList Mv

/-- The part of the invariant that concerns one lane: the front and the end of what was sent, and
whether the lane is attached. -/
structure LaneInv (p : Params) (sBase sNext : Nat) (attached : Prop) (ln : SendLane) : Prop where
  /-- a data lane is attached and lives -/
  routed : ln.data = true → attached ∧ ln.dead = false
  born : attached → ln.born = true
  range : ∀ x ∈ ln.infl, sBase ≤ x ∧ x < sNext
  /-- only data lanes have bytes in flight -/
  idle : ln.data = false → ∀ x, x ∉ ln.infl
  /-- a race data lane sent everything from the front to its cursor -/
  sent : p.mode = .race → ln.data = true → ∀ x, sBase ≤ x → x < ln.rnext → x ∈ ln.infl
  cursor : p.mode = .race → ln.rnext ≤ sNext
  /-- a lane that becomes a data lane starts at the front -/
  rewound : p.mode = .race → ln.data = false → ln.rnext ≤ sBase

/-- What holds of the opening, also of a session that has ended. -/
structure Opening (p : Params) (v : SendPart) : Prop where
  /-- a dialer before its verdict, and a passive before its first OPEN, has no lanes -/
  laneless : p.Unborn v.phase → (∀ l, (v.lanes l).born = false) ∧ v.earlyOpen = false
  dialer : p.role = .dialer → v.phase ≠ .absent
  /-- no carrier waits for a session that does not exist -/
  waiting : v.phase = .absent → v.adopting = []

/-- The invariant of the send side, for a session that has not ended. -/
structure SendInv (p : Params) (v : SendPart) : Prop where
  base_le : v.sBase ≤ v.sNext
  next_le : v.sNext ≤ v.endOff
  retx_range : ∀ x ∈ v.retx, v.sBase ≤ x ∧ x < v.sNext
  rescue_range : v.rescue.set = true → v.sBase ≤ v.rescue.sp.off ∧ v.rescue.sp.endOff ≤ v.sNext
  lane : ∀ l, LaneInv p v.sBase v.sNext (l ∈ v.order) (v.lanes l)
  /-- selector and bond: what was sent and not acknowledged is queued or in flight -/
  cover : p.mode ≠ .race → ∀ x, v.sBase ≤ x → x < v.sNext →
    x ∈ v.retx ∨ ∃ l, x ∈ (v.lanes l).infl
  /-- a session without lanes sent nothing -/
  unborn : p.Unborn v.phase →
    v.order = [] ∧ v.active = none ∧ v.sBase = p.firstOffset ∧ v.sNext = p.firstOffset
  early_le : p.firstOffset + v.early.getD 0 ≤ v.endOff

/-! ### One lane -/

namespace LaneInv

variable {p : Params} {b n : Nat} {att : Prop} {ln : SendLane}

lemma fresh (p : Params) (b n : Nat) {born : Bool} {st : LaneState} (hb : att → born = true) :
    LaneInv p b n att (Lane.new born st).send where
  routed := fun h => by cases h
  born := hb
  range := fun x hx => absurd hx (not_mem_empty x)
  idle := fun _ => not_mem_empty
  sent := fun _ h => by cases h
  cursor := fun _ => Nat.zero_le _
  rewound := fun _ _ => Nat.zero_le _

section

variable (h : LaneInv p b n att ln)
include h

/-- The end of what was sent moves up. -/
lemma grow {n' : Nat} (hn : n ≤ n') : LaneInv p b n' att ln :=
  { h with
    range := fun x hx => ⟨(h.range x hx).1, lt_of_lt_of_le (h.range x hx).2 hn⟩
    cursor := fun hr => le_trans (h.cursor hr) hn }

/-- The front moves up and the lane's spans are trimmed to it. -/
lemma advance {b' : Nat} (hb : b ≤ b') :
    LaneInv p b' n att { ln with infl := ln.infl.trimBelow b' } where
  routed := h.routed
  born := h.born
  range := fun x hx => by
    have hx := mem_trimBelow.mp hx
    exact ⟨hx.2, (h.range x hx.1).2⟩
  idle := fun hd x hx => h.idle hd x (mem_trimBelow.mp hx).1
  sent := fun hr hd x h1 h2 =>
    mem_trimBelow.mpr ⟨h.sent hr hd x (le_trans hb h1) h2, h1⟩
  cursor := h.cursor
  rewound := fun hr hd => le_trans (h.rewound hr hd) hb

/-- The same for a lane whose spans are not trimmed because it has none. -/
lemma advance_idle (hd : ln.data = false) {b' : Nat} (hb : b ≤ b') : LaneInv p b' n att ln :=
  { h with
    range := fun x hx => absurd hx (h.idle hd x)
    sent := fun _ hd' => by
      rw [hd] at hd'
      cases hd'
    rewound := fun hr hd => le_trans (h.rewound hr hd) hb }

/-- An attached lane becomes a data lane. -/
lemma route (ha : att) :
    LaneInv p b n att { ln with data := true, dead := false } where
  routed := fun _ => ⟨ha, rfl⟩
  born := h.born
  range := h.range
  idle := fun hd => by cases hd
  sent := fun hr _ x h1 h2 => by
    by_cases hd : ln.data = true
    · exact h.sent hr hd x h1 h2
    · -- a lane that carried no data starts at the front
      have := h.rewound hr (Bool.eq_false_iff.mpr hd)
      exact absurd h2 (by simp only; omega)
  cursor := h.cursor
  rewound := fun _ hd => by cases hd

/-- A lane leaves the data set; its spans are gone and its race cursor is back at the front. -/
lemma leave (hbn : b ≤ n) {att' : Prop} (ha : att' → att) (dead : Bool) {r : Nat}
    (hr : p.mode = .race → r = b) :
    LaneInv p b n att' { ln with data := false, dead := dead, infl := .empty, rnext := r } where
  routed := fun h => by cases h
  born := fun h' => h.born (ha h')
  range := fun x hx => absurd hx (not_mem_empty x)
  idle := fun _ => not_mem_empty
  sent := fun _ hd => by cases hd
  cursor := fun hm => by
    rw [hr hm]
    exact hbn
  rewound := fun hm _ => le_of_eq (hr hm)

/-- A data lane places `[off, off + k)`. -/
lemma place (hd : ln.data = true) (off k : Nat) {n' : Nat} (hn : n ≤ n') (h1 : b ≤ off)
    (h2 : off + k ≤ n') :
    LaneInv p b n' att { ln with infl := ln.infl.add off k } where
  routed := h.routed
  born := h.born
  range := fun x hx => by
    rcases mem_add.mp hx with hx | hx
    · exact (h.grow hn).range x hx
    · omega
  idle := fun hd' => by
    rw [show ln.data = false from hd'] at hd
    cases hd
  sent := fun hr _ x h3 h4 => mem_add.mpr (.inl (h.sent hr hd x h3 h4))
  cursor := fun hr => le_trans (h.cursor hr) hn
  rewound := fun _ hd' => by
    rw [show ln.data = false from hd'] at hd
    cases hd

/-- A race lane places the bytes at its cursor, which moves behind them. -/
lemma place_cursor (hd : ln.data = true) {k n' : Nat} (hn : n ≤ n') (h1 : b ≤ ln.rnext)
    (h2 : ln.rnext + k ≤ n') :
    LaneInv p b n' att { ln with infl := ln.infl.add ln.rnext k, rnext := ln.rnext + k } :=
  { h.place hd ln.rnext k hn h1 h2 with
    sent := fun hr _ x h3 h4 => by
      have h4 : x < ln.rnext + k := h4
      refine mem_add.mpr ?_
      by_cases hx : x < ln.rnext
      · exact .inl (h.sent hr hd x h3 hx)
      · exact .inr ⟨by omega, h4⟩
    cursor := fun _ => h2
    rewound := fun _ hd' => by
      rw [show ln.data = false from hd'] at hd
      cases hd }

end

end LaneInv

/-! ### The opening -/

namespace Opening

variable {p : Params} {v v' : SendPart}

lemma init (p : Params) : Opening p (Session.init p).sendPart where
  laneless := fun _ => ⟨fun _ => rfl, rfl⟩
  dialer := fun h => by simp [Session.sendPart, Session.init, h]
  waiting := fun _ => rfl

/-- Every move keeps the opening's facts. -/
lemma move (h : Opening p v) (m : Mv) (hg : m.Guard p v) : Opening p (m.apply p v) := by
  -- a lane is born only once the session has opened
  have hborn : p.Unborn v.phase → ∀ l, ((m.apply p v).lanes l).born = false := fun hu l => by
    have hb := (h.laneless hu).1 l
    cases apply_hands p v m l with
    | same hs _ _ _ => exact hs.trans hb
    | attach e hm _ =>
      subst hm
      exact absurd hu hg.2
    | lastAck d _ ha =>
      rw [ha]
      exact hb
    | first fr _ ha =>
      rw [ha]
      exact hb
    | firstOut fr _ ha =>
      rw [ha]
      exact hb
  cases m with
  | phase ph =>
    exact ⟨fun hc => absurd hc hg.1, fun _ hc => hg.1 (.inl hc), fun hc => absurd (.inl hc) hg.1⟩
  | adopting ad =>
    refine ⟨h.laneless, h.dialer, fun hc => eq_nil_iff_forall_not_mem.mpr fun a ha => ?_⟩
    have := hg hc a ha
    rw [h.waiting hc] at this
    cases this
  | attach l early => exact ⟨fun hc => absurd hc hg.2, h.dialer, h.waiting⟩
  | _ => exact ⟨fun hu => ⟨hborn hu, (h.laneless hu).2⟩, h.dialer, h.waiting⟩

lemma sends (h : Opening p v) {ok : Mv → Prop} {fs : List Frame} (hs : Sends p ok v fs v') :
    Opening p v' :=
  hs.inv (fun _ v => Opening p v) h fun _ _ m _ hg h => h.move m hg

end Opening

/-! ### The whole send side -/

namespace SendInv

variable {p : Params} {v : SendPart}

lemma init (p : Params) : SendInv p (Session.init p).sendPart where
  base_le := le_rfl
  next_le := le_rfl
  retx_range := fun x hx => absurd hx (not_mem_empty x)
  rescue_range := fun h => by cases h
  lane := fun _ => LaneInv.fresh p _ _ fun h => by cases h
  cover := fun _ x h1 h2 => absurd h1 (Nat.not_le_of_lt h2)
  unborn := fun _ => ⟨rfl, rfl, rfl, rfl⟩
  early_le := le_rfl

variable {l : LaneId}

/-- A lane with bytes in flight is an attached data lane. -/
lemma of_infl (h : SendInv p v) {x : Nat} (hx : x ∈ (v.lanes l).infl) :
    (v.lanes l).data = true ∧ l ∈ v.order := by
  have hd : (v.lanes l).data = true := by
    by_contra hd
    exact (h.lane l).idle (Bool.eq_false_iff.mpr hd) x hx
  exact ⟨hd, ((h.lane l).routed hd).1⟩

/-- Bytes are committed. -/
lemma commit (h : SendInv p v) (k : Nat) : SendInv p { v with endOff := v.endOff + k } :=
  { h with
    next_le := le_trans h.next_le (Nat.le_add_right _ _)
    early_le := le_trans h.early_le (Nat.le_add_right _ _) }

variable {retx : SpanList}

section

variable (h : SendInv p v)
include h

variable {ln : SendLane}

/-- One lane changes, and with it the queue: bytes may move between the two. -/
lemma setLane (l : LaneId) (hln : LaneInv p v.sBase v.sNext (l ∈ v.order) ln)
    (hretx : ∀ x ∈ retx, v.sBase ≤ x ∧ x < v.sNext)
    (hcover : p.mode ≠ .race → ∀ x, v.sBase ≤ x → x ∈ v.retx ∨ x ∈ (v.lanes l).infl →
      x ∈ retx ∨ x ∈ ln.infl)
    : SendInv p { v.setLane l ln with retx := retx } :=
  { h with
    retx_range := hretx
    lane := fun i => by
      show LaneInv p v.sBase v.sNext (i ∈ v.order) (if i = l then ln else v.lanes i)
      by_cases hi : i = l
      · rw [if_pos hi, hi]
        exact hln
      · rw [if_neg hi]
        exact h.lane i
    cover := fun hm x h1 h2 => by
      show x ∈ retx ∨ ∃ i, x ∈ (if i = l then ln else v.lanes i).infl
      have hl : x ∈ retx ∨ x ∈ ln.infl → x ∈ retx ∨
          ∃ i, x ∈ (if i = l then ln else v.lanes i).infl := by
        rintro (hx | hx)
        · exact .inl hx
        · exact .inr ⟨l, by rwa [if_pos rfl]⟩
      rcases h.cover hm x h1 h2 with hx | ⟨i, hx⟩
      · exact hl (hcover hm x h1 (.inl hx))
      by_cases hi : i = l
      · rw [hi] at hx
        exact hl (hcover hm x h1 (.inr hx))
      · exact .inr ⟨i, by rwa [if_neg hi]⟩ }

/-- One lane changes and keeps its bytes in flight. -/
lemma setLane_keep (l : LaneId) (hln : LaneInv p v.sBase v.sNext (l ∈ v.order) ln)
    (hkeep : ∀ x ∈ (v.lanes l).infl, x ∈ ln.infl) : SendInv p (v.setLane l ln) :=
  h.setLane l hln h.retx_range fun _ x _ hx => hx.imp id (hkeep x)

/-- There is a lane: the session is past its opening. -/
lemma opened (hl : l ∈ v.order) : ¬ p.Unborn v.phase :=
  fun hc => by
    rw [(h.unborn hc).1] at hl
    cases hl

/-- The front advances. -/
lemma advance {front : Nat} (h1 : v.sBase ≤ front) (h2 : front ≤ v.sNext) :
    SendInv p
      { v with
        sBase := front
        retx := v.retx.trimBelow front
        rescue := Session.advanceRescue front v.rescue
        lanes := fun i =>
          if i ∈ v.order then { v.lanes i with infl := (v.lanes i).infl.trimBelow front }
          else v.lanes i } :=
  { h with
    base_le := h2
    retx_range := fun x hx => by
      have hx := mem_trimBelow.mp hx
      exact ⟨hx.2, (h.retx_range x hx.1).2⟩
    rescue_range := fun hs => by
      simp only [Session.advanceRescue] at hs ⊢
      by_cases hset : v.rescue.set = true
      · rw [if_pos hset] at hs ⊢
        have hr := h.rescue_range hset
        by_cases he : v.rescue.sp.endOff ≤ front
        · rw [if_pos he] at hs
          cases hs
        rw [if_neg he] at hs ⊢
        by_cases ho : v.rescue.sp.off < front
        · rw [if_pos ho] at hs ⊢
          refine ⟨le_rfl, ?_⟩
          show front + (v.rescue.sp.endOff - front) ≤ v.sNext
          omega
        · rw [if_neg ho] at hs ⊢
          exact ⟨Nat.le_of_not_lt ho, hr.2⟩
      · rw [if_neg hset] at hs
        exact absurd hs hset
    lane := fun i => by
      show LaneInv p front v.sNext (i ∈ v.order) (if i ∈ v.order then _ else v.lanes i)
      by_cases hi : i ∈ v.order
      · rw [if_pos hi]
        exact (h.lane i).advance h1
      · rw [if_neg hi]
        refine (h.lane i).advance_idle (Bool.eq_false_iff.mpr fun hd => ?_) h1
        exact hi ((h.lane i).routed hd).1
    cover := fun hm x h3 h4 => by
      rcases h.cover hm x (le_trans h1 h3) h4 with hx | ⟨i, hx⟩
      · exact .inl (mem_trimBelow.mpr ⟨hx, h3⟩)
      refine .inr ⟨i, ?_⟩
      show x ∈ (if i ∈ v.order then _ else v.lanes i : SendLane).infl
      rw [if_pos (h.of_infl hx).2]
      exact mem_trimBelow.mpr ⟨hx, h3⟩
    unborn := fun hph => by
      obtain ⟨ho, ha, h3, h4⟩ := h.unborn hph
      exact ⟨ho, ha, Nat.le_antisymm (h4 ▸ h2) (h3 ▸ h1), h4⟩ }

/-- A lane's record is created and attached. -/
lemma attach (l : LaneId) (hl : (v.lanes l).born = false) (hph : ¬ p.Unborn v.phase)
    (early : Bool) : SendInv p (apply p v (.attach l early)) := by
  have hout : l ∉ v.order := fun hc => by
    rw [(h.lane l).born hc] at hl
    cases hl
  have hidle : (v.lanes l).data = false := Bool.eq_false_iff.mpr fun hd =>
    hout ((h.lane l).routed hd).1
  have happly : apply p v (.attach l early) =
      { v.setLane l { (Lane.new true .member).send with early := early } with
        earlyOpen := v.earlyOpen || early
        order := v.order ++ [l] } := by
    simp only [apply, if_neg hout]
  rw [happly]
  exact
    { h with
      lane := fun i => by
        show LaneInv p v.sBase v.sNext (i ∈ v.order ++ [l]) (if i = l then _ else v.lanes i)
        by_cases hi : i = l
        · rw [if_pos hi]
          have hf : LaneInv p v.sBase v.sNext (i ∈ v.order ++ [l]) (Lane.new true .member).send :=
            LaneInv.fresh p _ _ fun _ => rfl
          exact { hf with }
        rw [if_neg hi]
        have hmem : i ∈ v.order ++ [l] ↔ i ∈ v.order := by simp [hi]
        rw [hmem]
        exact h.lane i
      cover := fun hm x h1 h2 => by
        rcases h.cover hm x h1 h2 with hx | ⟨i, hx⟩
        · exact .inl hx
        refine .inr ⟨i, ?_⟩
        show x ∈ (if i = l then _ else v.lanes i : SendLane).infl
        rw [if_neg fun hi : i = l => (h.lane l).idle hidle x (hi ▸ hx)]
        exact hx
      unborn := fun hc => absurd hc hph }

/-- The attached lanes change, and no data lane is dropped. -/
lemma reorder {o : List LaneId} (hsub : ∀ l ∈ o, l ∈ v.order)
    (hdata : ∀ l ∈ v.order, (v.lanes l).data = true → l ∈ o) : SendInv p { v with order := o } :=
  { h with
    lane := fun i =>
      { h.lane i with
        routed := fun hd =>
          ⟨hdata i ((h.lane i).routed hd).1 hd, ((h.lane i).routed hd).2⟩
        born := fun hi => (h.lane i).born (hsub i hi) }
    unborn := fun hc => by
      obtain ⟨h1, h2⟩ := h.unborn hc
      refine ⟨eq_nil_iff_forall_not_mem.mpr fun l hl => ?_, h2⟩
      have := hsub l hl
      rw [h1] at this
      cases this }

/-- The session opens. -/
lemma setPhase {ph : Phase} (hph : ¬ p.Unborn ph) : SendInv p { v with phase := ph } :=
  { h with unborn := fun hc => absurd hc hph }

/-- The selector's lane changes. -/
lemma setActive {a : Option LaneId} (ha : a = none ∨ ¬ p.Unborn v.phase) :
    SendInv p { v with active := a } :=
  { h with
    unborn := fun hc => by
      obtain ⟨h1, _, h2⟩ := h.unborn hc
      exact ⟨h1, ha.resolve_right (fun hn => hn hc), h2⟩ }

/-- The rescue slot changes. -/
lemma setRescue {r : RescueSlot} (hr : r.set = true → v.sBase ≤ r.sp.off ∧ r.sp.endOff ≤ v.sNext)
    : SendInv p { v with rescue := r } :=
  { h with rescue_range := hr }

/-- A data lane sends new bytes. -/
lemma extend (l : LaneId) (hd : (v.lanes l).data = true) {k : Nat} (hk : v.sNext + k ≤ v.endOff) :
    SendInv p
      { v.setLane l { v.lanes l with infl := (v.lanes l).infl.add v.sNext k } with
        sNext := v.sNext + k } :=
  { h with
    base_le := le_trans h.base_le (Nat.le_add_right _ _)
    next_le := hk
    retx_range := fun x hx => ⟨(h.retx_range x hx).1, Nat.lt_add_right k (h.retx_range x hx).2⟩
    rescue_range := fun hs => ⟨(h.rescue_range hs).1, Nat.le_add_right_of_le (h.rescue_range hs).2⟩
    lane := fun i => by
      show LaneInv p v.sBase (v.sNext + k) (i ∈ v.order) (if i = l then _ else v.lanes i)
      by_cases hi : i = l
      · rw [if_pos hi, hi]
        exact (h.lane l).place hd v.sNext k (Nat.le_add_right _ _) h.base_le le_rfl
      · rw [if_neg hi]
        exact (h.lane i).grow (Nat.le_add_right _ _)
    cover := fun hm x h1 h2 => by
      have h2 : x < v.sNext + k := h2
      by_cases hx : x < v.sNext
      · rcases h.cover hm x h1 hx with hx | ⟨i, hx⟩
        · exact .inl hx
        refine .inr ⟨i, ?_⟩
        show x ∈ (if i = l then _ else v.lanes i : SendLane).infl
        by_cases hi : i = l
        · rw [if_pos hi]
          exact mem_add.mpr (.inl (hi ▸ hx))
        · rwa [if_neg hi]
      refine .inr ⟨l, ?_⟩
      show x ∈ (if l = l then _ else v.lanes l : SendLane).infl
      rw [if_pos rfl]
      exact mem_add.mpr (.inr ⟨by omega, h2⟩)
    unborn := fun hc => absurd hc (h.opened ((h.lane l).routed hd).1) }

/-- The verdict on the early span: `kw` of its `k0` bytes are in flight on a data lane, the rest is
queued or, in race, ahead of the cursor. -/
lemma verdict (hd : (v.lanes l).data = true) (hb : v.sBase = p.firstOffset)
    (hn : v.sNext = p.firstOffset) {kw k0 n r : Nat} (retx : SpanList) (hkw : kw ≤ k0)
    (he : p.firstOffset + k0 ≤ v.endOff) (hmax : n = max v.sNext (p.firstOffset + k0))
    (hr : p.mode = .race → r = p.firstOffset + kw)
    (hr1 : ∀ x ∈ retx, p.firstOffset ≤ x ∧ x < p.firstOffset + k0)
    (hr2 : p.mode ≠ .race → ∀ x, p.firstOffset + kw ≤ x → x < p.firstOffset + k0 → x ∈ retx) :
    SendInv p
      { v.setLane l
          { v.lanes l with infl := (v.lanes l).infl.add p.firstOffset kw, rnext := r } with
        sNext := n
        retx := retx } := by
  obtain rfl : n = p.firstOffset + k0 := by omega
  have hnext : v.sNext ≤ p.firstOffset + k0 := by omega
  refine
    { h with
      base_le := le_trans h.base_le hnext
      next_le := he
      retx_range := fun x hx => by
        show v.sBase ≤ x ∧ _
        rw [hb]
        exact hr1 x hx
      rescue_range := fun hs => ⟨(h.rescue_range hs).1, le_trans (h.rescue_range hs).2 hnext⟩
      lane := fun i => ?_
      cover := fun hm x h1 h2 => ?_
      unborn := fun hc => absurd hc (h.opened ((h.lane l).routed hd).1) }
  · show LaneInv p v.sBase (p.firstOffset + k0) (i ∈ v.order) (if i = l then _ else v.lanes i)
    by_cases hi : i = l
    · rw [if_pos hi, hi]
      have hp := (h.lane l).place hd p.firstOffset kw hnext (le_of_eq hb) (by omega)
      exact
        { hp with
          sent := fun hm _ x h1 h2 => by
            refine mem_add.mpr (.inr ⟨hb ▸ h1, ?_⟩)
            rw [← hr hm]
            exact h2
          cursor := fun hm => by
            show r ≤ _
            rw [hr hm]
            omega
          rewound := fun _ hd' => by
            rw [show (v.lanes l).data = false from hd'] at hd
            cases hd }
    · rw [if_neg hi]
      exact (h.lane i).grow hnext
  have h1 : v.sBase ≤ x := h1
  by_cases hx : x < p.firstOffset + kw
  · refine .inr ⟨l, ?_⟩
    show x ∈ (if l = l then _ else v.lanes l : SendLane).infl
    rw [if_pos rfl]
    exact mem_add.mpr (.inr ⟨hb ▸ h1, hx⟩)
  · exact .inl (hr2 hm x (Nat.le_of_not_lt hx) h2)

/-- Race: queued bytes may be passed by a cursor. -/
lemma shrink (hm : p.mode = .race) (hr : ∀ x ∈ retx, x ∈ v.retx) :
    SendInv p { v with retx := retx } :=
  { h with
    retx_range := fun x hx => h.retx_range x (hr x hx)
    cover := fun hc => absurd hm hc }

/-- Race: a data lane sends from its cursor. -/
lemma extendCursor (hm : p.mode = .race) (l : LaneId) (hd : (v.lanes l).data = true)
    (hb : v.sBase ≤ (v.lanes l).rnext) {k n : Nat} (hn : n = max v.sNext ((v.lanes l).rnext + k))
    (he : (v.lanes l).rnext + k ≤ v.endOff) :
    SendInv p
      { v.setLane l
          { v.lanes l with
            infl := (v.lanes l).infl.add (v.lanes l).rnext k
            rnext := (v.lanes l).rnext + k } with
        sNext := n } := by
  subst hn
  have hle : v.sNext ≤ max v.sNext ((v.lanes l).rnext + k) := Nat.le_max_left _ _
  exact
    { h with
      base_le := le_trans h.base_le hle
      next_le := Nat.max_le.mpr ⟨h.next_le, he⟩
      retx_range := fun x hx =>
        ⟨(h.retx_range x hx).1, lt_of_lt_of_le (h.retx_range x hx).2 hle⟩
      rescue_range := fun hs =>
        ⟨(h.rescue_range hs).1, le_trans (h.rescue_range hs).2 hle⟩
      lane := fun i => by
        show LaneInv p v.sBase _ (i ∈ v.order) (if i = l then _ else v.lanes i)
        by_cases hi : i = l
        · rw [if_pos hi, hi]
          exact (h.lane l).place_cursor hd hle hb (Nat.le_max_right _ _)
        · rw [if_neg hi]
          exact (h.lane i).grow hle
      cover := fun hc => absurd hm hc
      unborn := fun hc => absurd hc (h.opened ((h.lane l).routed hd).1) }

/-! ### Every move -/

/-- The lane of a move is changed in what the invariant does not read. -/
lemma setLane_same (l : LaneId) (hb : ln.born = (v.lanes l).born)
    (hd : ln.data = (v.lanes l).data) (hx : ln.dead = (v.lanes l).dead)
    (hi : ln.infl = (v.lanes l).infl) (hr : ln.rnext = (v.lanes l).rnext) :
    SendInv p (v.setLane l ln) := by
  refine h.setLane_keep l ?_ fun x hm => hi ▸ hm
  have hl := h.lane l
  exact
    { routed := fun hc => hx ▸ hl.routed (hd ▸ hc)
      born := fun hc => hb ▸ hl.born hc
      range := fun x hm => hl.range x (hi ▸ hm)
      idle := fun hc x hm => hl.idle (hd ▸ hc) x (hi ▸ hm)
      sent := fun hm hc x h1 h2 => hi ▸ hl.sent hm (hd ▸ hc) x h1 (hr ▸ h2)
      cursor := fun hm => hr ▸ hl.cursor hm
      rewound := fun hm hc => hr ▸ hl.rewound hm (hd ▸ hc) }

/-- A lane leaves the data set. -/
lemma leave {dead : Bool} {a : Option LaneId} (hg : Mv.Guard p v (.leave l dead a retx)) :
    SendInv p (apply p v (.leave l dead a retx)) := by
  obtain ⟨ha, honly, hall⟩ := hg
  have h1 : SendInv p { v.setLane l
      { v.lanes l with
        data := false, dead := dead, infl := .empty
        rnext := if p.mode = .race then v.sBase else (v.lanes l).rnext } with
      retx := retx } := h.setLane l ((h.lane l).leave h.base_le id dead fun hm => if_pos hm)
    (fun x hx => (honly x hx).elim (h.retx_range x) fun hx => (h.lane l).range x hx.1)
    fun hm x hx1 hx => .inl (hall hm x hx1 hx)
  rcases ha with rfl | rfl
  · exact h1
  · exact h1.setActive (.inl rfl)

/-- Bytes that were sent before are put in flight once more. -/
lemma placeAgain (hd : (v.lanes l).data = true) {off k : Nat} (h1 : v.sBase ≤ off)
    (h2 : off + k ≤ v.sNext) : SendInv p (place v l off k) :=
  h.setLane_keep l ((h.lane l).place hd off k le_rfl h1 h2)
    fun _ hx => mem_add.mpr (.inl hx)

lemma again {k : Nat} (hg : Mv.Guard p v (.again l k)) :
    SendInv p (apply p v (.again l k)) := by
  obtain ⟨hd, hset, _, _, hk, _⟩ := hg
  have hr := h.rescue_range hset
  unfold Span.endOff at hr
  refine (h.placeAgain hd hr.1 (by omega)).setRescue fun _ => ?_
  show v.sBase ≤ v.rescue.sp.off + k ∧ v.rescue.sp.off + k + (v.rescue.sp.n - k) ≤ v.sNext
  omega

end

/-- The head of a queue that is not empty. -/
lemma head_eq (hne : v.retx.s ≠ []) : ∃ t, v.retx.s = head v :: t := by
  obtain ⟨sp, t, hcons⟩ := exists_cons_of_ne_nil hne
  refine ⟨t, ?_⟩
  unfold Mv.head
  rw [hcons]
  rfl

/-- What is replayed moves from the queue to the lane. -/
lemma replay (h : SendInv p v) {k : Nat} (hg : Mv.Guard p v (.replay l k)) :
    SendInv p (apply p v (.replay l k)) := by
  obtain ⟨hd, _, hne, hpos, _, hk, _⟩ := hg
  obtain ⟨t, hcons⟩ := head_eq hne
  have hmem : ∀ x, (head v).off ≤ x → x < (head v).off + (head v).n → x ∈ v.retx :=
    fun x h1 h2 => mem_head hcons h1 h2
  have hlow := h.retx_range (head v).off (hmem _ le_rfl (by omega))
  have hhigh := (h.retx_range ((head v).off + k - 1) (hmem _ (by omega) (by omega))).2
  have htake : ∀ x, x ∈ v.retx.takeFront k ↔ x ∈ v.retx ∧ (head v).off + k ≤ x := fun x =>
    mem_takeFront hcons hk
  refine h.setLane l ?_ (fun x hx => h.retx_range x ((htake x).mp hx).1) ?_
  · exact (h.lane l).place hd _ k le_rfl hlow.1 (by omega)
  intro _ x _ hx
  rcases hx with hx | hx
  · by_cases hle : (head v).off + k ≤ x
    · exact .inl ((htake x).mpr ⟨hx, hle⟩)
    · exact .inr (mem_add.mpr (.inr ⟨head_le hcons hx, by omega⟩))
  · exact .inr (mem_add.mpr (.inl hx))

lemma verdictMove (h : SendInv p v) {kw : Nat} (hg : Mv.Guard p v (.verdict l kw)) :
    SendInv p (apply p v (.verdict l kw)) := by
  obtain ⟨hd, hb, hn, hkw⟩ := hg
  -- nothing was sent before, so the queue is empty
  have hretx : ∀ x, x ∉ v.retx := fun x hx => by
    have := h.retx_range x hx
    omega
  refine h.verdict hd hb hn _ hkw h.early_le rfl (fun hm => if_pos hm) ?_ fun hm x h1 h2 => ?_
  · intro x hx
    split at hx
    · rcases mem_add.mp hx with hx | hx
      · exact absurd hx (hretx x)
      · omega
    · exact absurd hx (hretx x)
  · rw [if_pos ⟨hm, by omega⟩]
    exact mem_add.mpr (.inr ⟨h1, by omega⟩)

/-- **Every move of the send side but the end keeps the invariant.** -/
lemma move (h : SendInv p v) (m : Mv) (hne : m ≠ .finish) (hg : m.Guard p v) :
    SendInv p (m.apply p v) := by
  cases m with
  | finish => exact absurd rfl hne
  | reserve bs => exact { h with }
  | commit => exact { h.commit (v.wround.getD []).length with }
  | drop | request => exact { h with }
  | span k =>
    obtain ⟨hnone, _, _, hk, _⟩ := hg
    have hle := h.early_le
    rw [hnone, Option.getD_none] at hle
    refine { h with early_le := ?_ }
    show p.firstOffset + k ≤ v.endOff
    omega
  | phase ph => exact { h.setPhase hg.1 with }
  | adopting ad | openWin w | limit n => exact { h with }
  | advance front => exact h.advance (le_of_lt hg.1) hg.2
  | lastAck l d | first l fr => exact h.setLane_same l rfl rfl rfl rfl rfl
  | attach l early => exact h.attach l hg.1 hg.2 early
  | reorder o =>
    have hp : o.Perm v.order := hg
    exact h.reorder (fun l hl => hp.mem_iff.mp hl) fun l hl _ => hp.mem_iff.mpr hl
  | route l => exact h.setLane_keep l ((h.lane l).route hg) fun _ hx => hx
  | activate l =>
    have h1 : SendInv p (v.setLane l { v.lanes l with data := true, dead := false }) :=
      h.setLane_keep l ((h.lane l).route hg) fun _ hx => hx
    exact h1.setActive (.inr (h.opened hg))
  | idle => exact h.setActive (.inl rfl)
  | leave l dead a retx => exact h.leave hg
  | detach l =>
    have h1 := h.reorder (o := v.order.erase l) (fun i hi => mem_of_mem_erase hi)
      fun i hi hd => by
        have hne : i ≠ l := fun hc => by
          rw [hc, show (v.lanes l).data = false from hg] at hd
          cases hd
        exact (mem_erase_of_ne hne).mpr hi
    refine h1.setRescue fun hr => ?_
    split at hr
    · cases hr
    next hh =>
      rw [if_neg hh]
      exact h.rescue_range hr
  | cursor l =>
    refine h.setLane_keep l ?_ fun _ hx => hx
    exact
      { h.lane l with
        sent := fun _ _ x h1 h2 => absurd h1 (Nat.not_le_of_lt h2)
        cursor := fun _ => h.base_le
        rewound := fun _ _ => le_rfl }
  | lift l =>
    refine h.setLane_keep l ?_ fun _ hx => hx
    exact
      { h.lane l with
        sent := fun hm hd x h1 h2 => (h.lane l).sent hm hd x h1 (by
          have h2 : x < max (v.lanes l).rnext v.sBase := h2
          omega)
        cursor := fun hm => Nat.max_le.mpr ⟨(h.lane l).cursor hm, h.base_le⟩
        rewound := fun _ hd => absurd (hg.2.symm.trans hd) (by decide) }
  | rescue l sp =>
    obtain ⟨_, _, _, hoff, hn, hin⟩ := hg
    have hlast := ((h.lane l).range (sp.endOff - 1) (hin _ (by unfold Span.endOff; omega)
      (by unfold Span.endOff; omega))).2
    have hend : sp.endOff ≤ v.sNext := by omega
    exact { h with rescue_range := fun _ => ⟨le_of_eq hoff.symm, hend⟩ }
  | rescueDone own =>
    refine h.setRescue fun hr => ?_
    cases own <;> cases hr
  | verdict l kw => exact h.verdictMove hg
  | settle | interleave => exact { h with }
  | again l k => exact h.again hg
  | replay l k => exact h.replay hg
  | fresh l k clear =>
    obtain ⟨hd, _, _, _, hle, _⟩ := hg
    exact h.extend l hd (by omega)
  | race l k =>
    obtain ⟨hd, hm, _, _, hb, hle⟩ := hg
    exact h.extendCursor hm l hd hb rfl (by omega)
  | trim x => exact h.shrink hg fun y hy => (mem_trimBelow.mp hy).1
  | finOut l | ackOut fd dn d w => exact h
  | firstOut l fr => exact h.setLane_same l rfl rfl rfl rfl rfl
  | schedOut => exact h

/-- So every sequence of moves keeps it. -/
lemma sends (h : SendInv p v) {ok : Mv → Prop} (hok : ¬ ok .finish) {fs : List Frame}
    {v' : SendPart} (hs : Sends p ok v fs v') : SendInv p v' :=
  hs.inv (fun _ v => SendInv p v) h fun _ _ m hm hg h => h.move m (fun hf => hok (hf ▸ hm)) hg

end SendInv

end Rendr
