import Rendr.Dgram.Moves
import Rendr.Lib.Run

/-!
# The final seq of a race packet session

A race member places the FIN once its cursor is at the end of the queue and no queued datagram
that may still be placed lacks a seq. A datagram older than MaxAge counts as one that never will
be placed, although it may still be queued: the age is judged by the clock reading of the Fill
that places the FIN, and a control pass runs no head step. A Fill of another member with an
earlier reading still takes that datagram for a young one.

* `race_fin_outrun` — such a run: the FIN's final seq is fixed at `0` in a control pass, and the
  next Fill of another lane, whose reading is one nanosecond older, assigns seq `0`;
* `race_fin_covers` — in every run in which no Fill that may place datagrams reads the clock
  earlier than the Fill that fixed the final seq, no seq is assigned from then on.
-/

namespace Rendr.Dgram

open List

namespace Snd

/-- **The final seq is beyond every datagram.** Until the race started, no cursor is beyond the
queue's head; the FIN is requested only once WriteTo is closed; and once its final seq is fixed,
a queued datagram without a seq is too old for the reading that fixed it. -/
structure FinInv (p : Params) (tx : Ring) (next : Nat) (g : Signs) : Prop where
  cursors : g.ageOn = false ∨ g.raced = false → ∀ r ∈ g.rpos, r ≤ tx.pos
  requested : g.finRequested = true → g.closed = true ∨ g.peerFinSet = true
  fixed : g.finPlaced = true → g.finRequested = true ∧ g.finOff = next ∧
    ∀ d ∈ tx.q, d.seq = 0 → g.ageOn = true ∧ p.maxAge < g.finNow - d.at

/-- The invariant of a state. -/
def FinOk (p : Params) (s : Snd) : Prop := FinInv p s.tx s.nextSeq s.signs

variable {p : Params} {now : Int} {s s' : Snd}

/-- Descriptors may leave and the head move on. -/
lemma FinOk.shrink (h : s.FinOk p) (hq : ∀ d ∈ s'.tx.q, d ∈ s.tx.q) (hpos : s.tx.pos ≤ s'.tx.pos)
    (hn : s'.nextSeq = s.nextSeq) (hg : s'.signs = s.signs) : s'.FinOk p where
  cursors hoff r hr := by
    rw [hg] at hoff hr
    exact le_trans (h.cursors hoff r hr) hpos
  requested := by rw [hg]; exact h.requested
  fixed := by
    rw [hg, hn]
    intro hp
    obtain ⟨hreq, hoff, hall⟩ := h.fixed hp
    exact ⟨hreq, hoff, fun d hd => hall d (hq d hd)⟩

/-- Nothing that matters changed. -/
lemma FinOk.same (h : s.FinOk p) (hf : Framed s s') : s'.FinOk p :=
  h.shrink (fun d hd => by rwa [hf.1] at hd) (le_of_eq (by rw [hf.1])) hf.2.2 hf.2.1

/-- A pop takes descriptors away and moves the head forward. -/
lemma pop_tx (w : Which) :
    (∀ d ∈ (s.pop w).tx.q, d ∈ s.tx.q) ∧ s.tx.pos ≤ (s.pop w).tx.pos := by
  rcases hq : (s.ring w).q with _ | ⟨d, ds⟩
  · have hsame : s.pop w = s := by
      unfold pop
      rw [hq]
    rw [hsame]
    exact ⟨fun _ => id, le_rfl⟩
  have htx := pop_ring hq .tx
  rw [ring_tx] at htx
  rw [htx]
  split
  next hw =>
    subst hw
    exact ⟨fun e he => by rw [ring_tx] at hq; rw [hq]; exact mem_cons_of_mem _ he,
      Nat.le_succ _⟩
  · exact ⟨fun _ => id, le_rfl⟩

lemma raceRedoHead_tx :
    (∀ d ∈ s.raceRedoHead.tx.q, d ∈ s.tx.q) ∧ s.tx.pos ≤ s.raceRedoHead.tx.pos := by
  unfold raceRedoHead
  split
  · exact ⟨fun _ => id, le_rfl⟩
  · rw [(pktRedo_frame _).1]
    exact pop_tx (s := { s with pool := s.pool.ref _ }) .tx

/-- The Fill that fixes the final seq: its lane's cursor is at the end of the queue, so the race
has started unless the queue is empty, and every datagram without a seq is too old. -/
lemma FinOk.fixFin (h : s.FinOk p) (hm : p.mode = .race) {i : Nat}
    (hdue : s.finDue p i now = true) : (s.fixFin now).FinOk p := by
  unfold Snd.fixFin
  split
  · exact h
  rw [finDue, if_pos hm] at hdue
  simp only [racePktFinDue, Bool.and_eq_true, decide_eq_true_eq] at hdue
  obtain ⟨⟨⟨⟨⟨⟨hreq, -⟩, -⟩, -⟩, -⟩, hcur⟩, hall⟩ := hdue
  refine ⟨h.cursors, h.requested, fun _ => ⟨hreq, rfl, fun d hd h0 => ?_⟩⟩
  have hne : 0 < s.tx.q.length := length_pos_of_mem hd
  -- before the race started the cursor would stand at the queue's head
  have hon : ¬(s.signs.ageOn = false ∨ s.signs.raced = false) := by
    intro hoff
    have hrpos : (s.lanes[i]?.map Lane.rpos).getD 0 ≤ s.tx.pos := by
      rcases hl : s.lanes[i]? with _ | l
      · exact Nat.zero_le _
      · exact h.cursors hoff l.rpos (mem_map_of_mem (mem_of_getElem? hl))
    have hcur' : s.cursor i = s.tx.pos := Nat.max_eq_right hrpos
    omega
  simp only [not_or, Bool.not_eq_false] at hon
  have hraced : s.tx.raced = true := hon.2
  rw [hraced, Bool.not_true, Bool.false_or, all_eq_true] at hall
  have hd' := hall d hd
  rw [h0] at hd'
  simp only [beq_self_eq_true, Bool.true_or, Bool.true_and, Bool.not_eq_true',
    decide_eq_false_iff_not, not_le] at hd'
  exact ⟨hon.1, hd'⟩

/-- A datagram is given a seq only if it is young for this Fill, which after the final seq is
fixed no queued datagram without a seq is. -/
lemma FinOk.placeAt (h : s.FinOk p) {j : Nat} {d : Desc} (hq : s.tx.q[j]? = some d)
    (hage : now - d.at ≤ p.maxAge) (hnow : s.finPlaced = true → s.finNow ≤ now) (i : Nat) (dg : Bool) :
    (s.placeAt j i dg).FinOk p := by
  by_cases hp : s.finPlaced = true
  · have hseq : d.seq ≠ 0 := fun h0 => by
      have hold := ((h.fixed hp).2.2 d (mem_of_getElem? hq) h0).2
      have hread := hnow hp
      have hsame : s.signs.finNow = s.finNow := rfl
      omega
    refine h.same ⟨?_, placeAt_signs .., ?_⟩
    · rw [placeAt_tx hq, if_neg hseq]
    · rw [placeAt_nextSeq hq, if_neg hseq]
  have hpos : (s.placeAt j i dg).tx.pos = s.tx.pos := by
    rw [placeAt_tx hq]
    split <;> rfl
  refine ⟨?_, ?_, ?_⟩
  · rw [placeAt_signs, hpos]
    exact h.cursors
  · rw [placeAt_signs]
    exact h.requested
  · rw [placeAt_signs]
    exact fun hp' => absurd hp' hp

lemma FinOk.pktAgeStart (h : s.FinOk p) (hoff : s.ageOn = false) : (s.pktAgeStart now).FinOk p where
  cursors _ := h.cursors (Or.inl hoff)
  requested := h.requested
  fixed hp := by
    obtain ⟨hreq, heq, hall⟩ := h.fixed hp
    refine ⟨hreq, heq, fun d hd h0 => ?_⟩
    -- before the clock started nothing without a seq is queued
    obtain ⟨d', hd', rfl⟩ := mem_map.mp hd
    exact absurd (hall d' hd' h0).1 (by rw [show s.signs.ageOn = s.ageOn from rfl, hoff]; decide)

/-- **One move keeps the invariant**, at a reading not before the one that fixed the final seq. -/
lemma FinOk.move (hm : p.mode = .race) (hmove : Move p now s s')
    (hnow : s.finPlaced = true → s.finNow ≤ now) (h : s.FinOk p) : s'.FinOk p := by
  cases hmove with
  | sent w hw => exact h.shrink (pop_tx w).1 (pop_tx w).2 (pop_nextSeq w) (pop_signs w)
  | drop w b d ds hq hw =>
    exact h.shrink (pop_tx w).1 (pop_tx w).2 (pop_nextSeq w) (pop_signs w)
  | headRedo d ds _ hq hp h0 =>
    exact h.shrink raceRedoHead_tx.1 raceRedoHead_tx.2 raceRedoHead_nextSeq raceRedoHead_signs
  | redoDrop b => exact h.same (redoDrop_frame b)
  | redoPlace i dg => exact h.same (placeRedoHead_frame i dg)
  | place w i dg hne => exact absurd hm hne
  | placeAt j i dg d _ hq hage => exact h.placeAt hq hage hnow i dg
  | cursor i r hr ha =>
    refine ⟨fun hoff => ?_, h.requested, h.fixed⟩
    have hon : (s.setCursor i r).signs.ageOn = true ∧ (s.setCursor i r).signs.raced = true :=
      ⟨ha, hr⟩
    rcases hoff with hoff | hoff
    · exact absurd hoff (by rw [hon.1]; decide)
    · exact absurd hoff (by rw [hon.2]; decide)
  | raced =>
    refine ⟨fun hoff => h.cursors (Or.inl ?_), h.requested, h.fixed⟩
    rcases hoff with hoff | hoff
    · exact hoff
    · exact absurd hoff (by simp [signs])
  | ageStart hoff => exact h.pktAgeStart hoff
  | fixFin i hdue => exact h.fixFin hm hdue
  | marks s' hk =>
    refine h.same ⟨by rw [hk.rest], ?_, by rw [hk.rest]⟩
    · have hrpos := hk.rpos
      rw [hk.rest] at hrpos ⊢
      simp only [signs, Signs.mk.injEq, true_and, and_true]
      exact hrpos
  | shuts s' hk =>
    have hrest := hk.rest
    have htx : s'.tx = s.tx := by rw [hrest]
    have hn : s'.nextSeq = s.nextSeq := by rw [hrest]
    have hage : s'.ageOn = s.ageOn := by rw [hrest]
    have hplaced : s'.finPlaced = s.finPlaced ∧ s'.finOff = s.finOff ∧ s'.finNow = s.finNow := by
      rw [hrest]
      exact ⟨rfl, rfl, rfl⟩
    refine ⟨?_, fun hr => ?_, fun hp => ?_⟩
    · have hcur := h.cursors
      simp only [signs, hk.rpos, htx, hage] at hcur ⊢
      exact hcur
    · rcases hk.request hr with hr' | hr'
      · exact (h.requested hr').imp hk.closed hk.peerFinSet
      · exact hr'
    obtain ⟨hreq, hoff, hall⟩ := h.fixed (hplaced.1.symm.trans hp)
    refine ⟨hk.requested hreq, ?_, ?_⟩
    · rw [hn]
      exact hplaced.2.1.trans hoff
    · simp only [signs, htx, hage, hplaced.2.2] at hall ⊢
      exact hall
  | lost i =>
    exact h.same (pktLaneGone_frame i)
  | attach l hr h0 =>
    refine ⟨fun hoff r hmem => ?_, h.requested, h.fixed⟩
    simp only [signs, map_append, mem_append, map_cons, map_nil,
      mem_singleton] at hmem
    rcases hmem with hmem | rfl
    · exact h.cursors hoff r hmem
    · exact hr

/-- What a move does to the final seq: it fixes it, or leaves it with its reading. -/
lemma move_final (hmove : Move p now s s') :
    s' = s.fixFin now ∨
    s'.finPlaced = s.finPlaced ∧ s'.finOff = s.finOff ∧ s'.finNow = s.finNow := by
  have hsigns : s'.signs = s.signs →
      s'.finPlaced = s.finPlaced ∧ s'.finOff = s.finOff ∧ s'.finNow = s.finNow := fun hg =>
    ⟨congrArg Signs.finPlaced hg, congrArg Signs.finOff hg, congrArg Signs.finNow hg⟩
  cases hmove with
  | fixFin i hdue => exact Or.inl rfl
  | sent w hw | drop w b d ds hq hw => exact Or.inr (hsigns (pop_signs w))
  | headRedo d ds _ hq hw h0 => exact Or.inr (hsigns raceRedoHead_signs)
  | redoDrop b => exact Or.inr (hsigns (redoDrop_frame b).2.1)
  | redoPlace i dg => exact Or.inr (hsigns (placeRedoHead_frame i dg).2.1)
  | place w i dg hne => exact Or.inr (hsigns (placeHead_signs w i dg))
  | placeAt j i dg d _ hq hage => exact Or.inr (hsigns (placeAt_signs j i dg))
  | cursor i r hr ha | raced | ageStart hoff | attach l hr h0 => exact Or.inr ⟨rfl, rfl, rfl⟩
  | marks s' hk | shuts s' hk =>
    rw [hk.rest]
    exact Or.inr ⟨rfl, rfl, rfl⟩
  | lost i => exact Or.inr (hsigns (pktLaneGone_frame i).2.1)

/-- The reading that fixed the final seq is not after this Fill's, also if a move fixes it. -/
lemma move_finNow (hmove : Move p now s s') (hnow : s.finPlaced = true → s.finNow ≤ now)
    (hp : s'.finPlaced = true) : s'.finNow ≤ now := by
  rcases move_final hmove with rfl | ⟨hplaced, -, hread⟩
  · unfold Snd.fixFin
    split
    next hp => exact hnow hp
    · exact le_rfl
  · rw [hread]
    exact hnow (hplaced.symm.trans hp)

variable {off : Nat}

/-- A final seq that is fixed stays. -/
lemma moves_final (hmoves : Moves p now s s')
    (hp : s.finPlaced = true ∧ s.finOff = off) : s'.finPlaced = true ∧ s'.finOff = off := by
  refine hmoves.inv (fun t => t.finPlaced = true ∧ t.finOff = off) (fun t t' hmove ht => ?_) hp
  rcases move_final hmove with rfl | ⟨hplaced, hoff, -⟩
  · rwa [Snd.fixFin, if_pos ht.1]
  · exact ⟨hplaced.trans ht.1, hoff.trans ht.2⟩

/-- A sequence of moves keeps the invariant. -/
lemma FinOk.moves (hm : p.mode = .race) (hmoves : Moves p now s s')
    (hnow : s.finPlaced = true → s.finNow ≤ now) (h : s.FinOk p) : s'.FinOk p :=
  (hmoves.inv (fun t => t.FinOk p ∧ (t.finPlaced = true → t.finNow ≤ now))
    (fun _ _ hmove ht => ⟨ht.1.move hm hmove ht.2, move_finNow hmove ht.2⟩) ⟨h, hnow⟩).1

/-! ### Events -/

/-- A control pass places no datagram: it may fix the final seq, whatever its reading. -/
lemma FinOk.control (hm : p.mode = .race) (h : s.FinOk p) (i : Nat) {b : Batch}
    (hctl : b.ctl = true) : (s.fillPacket p i b).FinOk p := by
  unfold fillPacket
  split
  · exact h
  split
  · exact h
  simp only [hctl, if_true]
  refine guard h fun hdue => ?_
  have hfix := h.fixFin hm hdue
  split
  · have hk := finOn_marks i (s.fixFin b.now)
    refine hfix.same ⟨rfl, ?_, rfl⟩
    simp only [signs, hk.rpos]
    rfl
  · exact hfix

/-- An accepted datagram is queued while no FIN is requested. -/
lemma FinOk.queued (h : s.FinOk p) (hopen : s.finPlaced = false) {g : Dg} {t : Int}
    (hq : Queued g t s s') : s'.FinOk p := by
  cases hq with
  | dropped => exact h
  | queued w wide =>
    cases w with
    | tx => exact ⟨h.cursors, h.requested, fun hp => absurd hp (by simp [signs, append, setRing, hopen])⟩
    | big => exact h

/-- A Fill that may place datagrams does not read the clock before the Fill that fixed the
final seq. -/
def ClockOk (s : Snd) : Ev → Prop
  | .fill _ b => b.ctl = false → s.finPlaced = true → s.finNow ≤ b.now
  | _ => True

/-- **One event keeps the invariant.** -/
lemma FinOk.step (hm : p.mode = .race) (h : s.FinOk p) (ev : Ev) (hclock : s.ClockOk ev) :
    (s.step p ev).FinOk p := by
  rcases step_cases p s.finNow s ev with ⟨body, t, pin, rfl⟩ | ⟨i, f, t, rfl⟩ | ⟨now, hnow, hmoves⟩
  · rcases writeTo_moves (p := p) s.finNow body t pin s with heq | ⟨hc, hf, -, s', hs', hg, hq⟩
    · rw [show s.step p (.writeTo body t pin) = s from heq]
      exact h
    -- WriteTo accepts only while no FIN is requested, so the final seq is not fixed
    have hplaced : s.finPlaced = false := by
      by_contra hp
      rcases h.requested (h.fixed (by simpa using hp : s.finPlaced = true)).1 with hr | hr
      · exact absurd (hc.symm.trans hr) (by decide)
      · exact absurd (hf.symm.trans hr) (by decide)
    have hlog : FinOk p { s with log := s.log ++ [body] } := { h with }
    exact (hlog.moves hm hs' fun _ => le_rfl).queued
      ((congrArg Signs.finPlaced hg).trans hplaced) hq
  · exact h.same (pktUnsent_frame i f t)
  rcases hnow with ⟨i, b, rfl, rfl⟩ | rfl
  · cases hctl : b.ctl with
    | true => exact h.control hm i hctl
    | false => exact h.moves hm hmoves (hclock hctl)
  · exact h.moves hm hmoves fun _ => le_rfl

lemma FinOk.start (p : Params) : (start p).FinOk p where
  cursors _ r hr := by simp [signs, Snd.start] at hr
  requested hr := by simp [signs, Snd.start] at hr
  fixed hp := by simp [signs, Snd.start] at hp

/-- An event leaves a final seq that is fixed. -/
lemma step_final (ev : Ev) (hp : s.finPlaced = true ∧ s.finOff = off) :
    (s.step p ev).finPlaced = true ∧ (s.step p ev).finOff = off := by
  have hsigns : ∀ {t t' : Snd}, t'.signs = t.signs → (t.finPlaced = true ∧ t.finOff = off) →
      t'.finPlaced = true ∧ t'.finOff = off := fun hg ht =>
    ⟨(congrArg Signs.finPlaced hg).trans ht.1, (congrArg Signs.finOff hg).trans ht.2⟩
  rcases step_cases p 0 s ev with ⟨body, t, pin, rfl⟩ | ⟨i, f, t, rfl⟩ | ⟨now, -, hmoves⟩
  · rcases writeTo_moves (p := p) 0 body t pin s with heq | ⟨-, -, -, s', -, hg, hq⟩
    · rw [show s.step p (.writeTo body t pin) = s from heq]
      exact hp
    have hs' : s'.finPlaced = true ∧ s'.finOff = off :=
      ⟨(congrArg Signs.finPlaced hg).trans hp.1, (congrArg Signs.finOff hg).trans hp.2⟩
    have hlast : (s.step p (.writeTo body t pin)).signs = s'.signs := by
      change (s.writeTo p body t pin).1.signs = s'.signs
      generalize (s.writeTo p body t pin).1 = u at hq
      cases hq with
      | dropped => rfl
      | queued w wide => cases w <;> rfl
    exact hsigns hlast hs'
  · exact hsigns (pktUnsent_frame i f t).2.1 hp
  · exact moves_final hmoves hp

/-- A run leaves a final seq that is fixed. -/
lemma run_final (evs : List Ev) (hp : s.finPlaced = true ∧ s.finOff = off) :
    (runFrom (step p) s evs).finPlaced = true ∧ (runFrom (step p) s evs).finOff = off :=
  runFrom_inv (fun t : Snd => t.finPlaced = true ∧ t.finOff = off) hp
    fun _ ev _ ht => step_final ev ht

/-- **The race FIN covers every datagram.** In a run in which no Fill that may place datagrams
reads the clock before the Fill that fixed the final seq, no seq is assigned once it is fixed. -/
theorem race_fin_covers (p : Params) (hm : p.mode = .race) (evs evs' : List Ev)
    (hclock : Along (step p) ClockOk (Snd.start p) (evs ++ evs'))
    (hfix : (runFrom (step p) (Snd.start p) evs).finPlaced = true) :
    (runFrom (step p) (Snd.start p) (evs ++ evs')).finPlaced = true ∧
    (runFrom (step p) (Snd.start p) (evs ++ evs')).finOff =
      (runFrom (step p) (Snd.start p) evs).finOff ∧
    (runFrom (step p) (Snd.start p) (evs ++ evs')).nextSeq =
      (runFrom (step p) (Snd.start p) evs).finOff := by
  obtain ⟨hp, hoff⟩ := run_final evs' (p := p) ⟨hfix, rfl⟩
  have hok := runFrom_along (FinOk p) (FinOk.start p)
    (fun s ev hev hs => hs.step hm ev hev) hclock
  rw [runFrom_append] at hok ⊢
  exact ⟨hp, hoff, ((hok.fixed hp).2.1.symm.trans hoff)⟩

/-! ### A run with unordered readings -/

/-- A race dialer with a MaxAge of ten nanoseconds. -/
def demoParams : Params := ⟨.race, false, 1200, 1048576, 10, 0, 4611686018427387904⟩

/-- A batch at reading `now` that takes datagrams of up to `room` bytes. -/
def demoBatch (now : Int) (ctl : Bool) (room : Nat) : Batch :=
  ⟨now, true, ctl, true, false, room, 64, none, 0, true, []⟩

/-- Two datagram lanes; a datagram of 600 bytes, written at reading `0`, is too large for lane
`0`, whose Fill passes it; the application closes; and a control pass of lane `0` at reading `11`
takes the datagram for one that will never be placed. -/
def demoFixed : List Ev :=
  [.attach true true true, .attach true true true, .routing [true, true] true 0,
    .writeTo (List.replicate 600 0) 0 ⟨true, false, 0, true, true, false⟩,
    .fill 0 (demoBatch 5 false 512), .close, .fill 0 (demoBatch 11 true 512)]

/-- The final seq is fixed at `0`; a Fill of lane `1`, whose reading `10` was taken before, gives
the datagram seq `0`. -/
theorem race_fin_outrun :
    let s := runFrom (step demoParams) (Snd.start demoParams) demoFixed
    let s' := step demoParams s (.fill 1 (demoBatch 10 false 1200))
    s.finPlaced = true ∧ s.finOff = 0 ∧ s.nextSeq = 0 ∧
    s'.finOff = 0 ∧ s'.nextSeq = 1 ∧
    s'.frames.map (fun f => (f.1, f.2.seq)) = [(1, 0)] := by
  decide +kernel

theorem race_fin_covers_ordered :
    (runFrom (step demoParams) (Snd.start demoParams)
      (demoFixed ++ [.fill 1 (demoBatch 11 false 1200)])).nextSeq = 0 := by
  have hclock : Along (step demoParams) ClockOk (Snd.start demoParams)
      (demoFixed ++ [.fill 1 (demoBatch 11 false 1200)]) := by
    refine ⟨trivial, trivial, trivial, trivial, fun _ => ?_, trivial, fun h => ?_, fun _ _ => ?_,
      trivial⟩
    · decide +kernel
    · exact absurd h (by decide)
    · decide +kernel
  have h := race_fin_covers demoParams rfl demoFixed [.fill 1 (demoBatch 11 false 1200)] hclock
    (by decide +kernel)
  exact h.2.2.trans (by decide +kernel)

end Snd

end Rendr.Dgram
