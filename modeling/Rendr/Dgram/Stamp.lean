import Rendr.Dgram.Moves
import Rendr.Dgram.RedoRing

/-!
# Which datagram carries which seq

In selector and bond a datagram leaves its queue with its placement, so it gets one seq, and a
datagram a dying carrier hands back keeps the one it has. The DGRAM frames placed are therefore a
one-to-one relation between the datagrams that were placed and the seqs assigned (`Stamped`).
Once the FIN's final seq is fixed, both queues are empty and `WriteTo` is closed, so no seq is
assigned any more; what is still in the redo list has its seq.

* `Stamped.step` — every event whose hand-backs are of frames placed on that lane preserves it, and
  frames, seqs, accepted datagrams and a fixed final seq stay (`Grows`).
-/

namespace Rendr.Dgram

open List List.Sublist

namespace Snd

/-- **One seq per datagram.** The frames placed assign seqs of `[firstSeq, nextSeq)` to accepted
datagrams one to one; a returned datagram has the seq of its frame, a queued one has none. All of
them are among the first `k` accepted. -/
structure Stamped (p : Params) (k : Nat) (s : Snd) : Prop where
  low : p.firstSeq ≤ s.nextSeq
  range : ∀ x ∈ s.frames, p.firstSeq ≤ x.2.seq ∧ x.2.seq < s.nextSeq
  body : ∀ x ∈ s.frames, x.2.dg.id < k ∧ s.log[x.2.dg.id]? = some x.2.dg.body
  /-- Two frames are of one datagram exactly when they have one seq. -/
  one : ∀ x ∈ s.frames, ∀ y ∈ s.frames, x.2.dg.id = y.2.dg.id ↔ x.2.seq = y.2.seq
  redo : ∀ r ∈ s.redo, ∃ i, (i, (⟨r.seq, r.dg⟩ : Frame)) ∈ s.frames
  queued : ∀ w, ∀ d ∈ (s.ring w).q, d.dg.id < k ∧ s.log[d.dg.id]? = some d.dg.body ∧
    ∀ x ∈ s.frames, x.2.dg.id ≠ d.dg.id
  distinct : ((s.tx.q ++ s.txBig.q).map fun d => d.dg.id).Nodup
  requested : s.finRequested = true → s.closed = true ∨ s.peerFinSet = true
  /-- Nothing is left to assign a seq to once the final one is fixed. -/
  fixed : s.finPlaced = true →
    s.finRequested = true ∧ s.finOff = s.nextSeq ∧ s.tx.q = [] ∧ s.txBig.q = []

/-- What the peer may rely on stays: the frames placed, the seqs assigned, the datagrams accepted
and a final seq that is fixed. -/
structure Grows (s s' : Snd) : Prop where
  frames : ∀ x ∈ s.frames, x ∈ s'.frames
  next : s.nextSeq ≤ s'.nextSeq
  log : ∀ (n : Nat) b, s.log[n]? = some b → s'.log[n]? = some b
  fin : s.finPlaced = true → s'.finPlaced = true ∧ s'.finOff = s.finOff

variable {p : Params} {now : Int} {k : Nat} {s s' s'' : Snd}

lemma Grows.refl (s : Snd) : Grows s s :=
  ⟨fun _ => id, le_rfl, fun _ _ => id, fun h => ⟨h, rfl⟩⟩

lemma Grows.trans (h : Grows s s') (h' : Grows s' s'') : Grows s s'' where
  frames x hx := h'.frames x (h.frames x hx)
  next := le_trans h.next h'.next
  log n b hb := h'.log n b (h.log n b hb)
  fin hp := by
    obtain ⟨hp', hoff⟩ := h.fin hp
    obtain ⟨hp'', hoff'⟩ := h'.fin hp'
    exact ⟨hp'', hoff'.trans hoff⟩

/-- Queued and returned datagrams may leave, and the session may be shut; nothing is placed. -/
structure Shrinks (s s' : Snd) : Prop where
  frames : s'.frames = s.frames
  next : s'.nextSeq = s.nextSeq
  log : s'.log = s.log
  redo : ∀ r ∈ s'.redo, r ∈ s.redo
  queues : ∀ w, ((s'.ring w).q.map Desc.dg).Sublist ((s.ring w).q.map Desc.dg)
  fin : s'.finPlaced = s.finPlaced ∧ s'.finOff = s.finOff
  closed : s.closed = true → s'.closed = true
  peerFinSet : s.peerFinSet = true → s'.peerFinSet = true
  finRequested : s.finRequested = true → s'.finRequested = true
  request : s'.finRequested = true →
    s.finRequested = true ∨ s'.closed = true ∨ s'.peerFinSet = true

lemma Shrinks.grows (h : Shrinks s s') : Grows s s' where
  frames x hx := by rwa [h.frames]
  next := le_of_eq h.next.symm
  log n b hb := by rwa [h.log]
  fin hp := ⟨h.fin.1.trans hp, h.fin.2⟩

/-- A change that leaves the flags of the end alone. -/
lemma Shrinks.plain (hsigns : s'.signs = s.signs) (hframes : s'.frames = s.frames)
    (hnext : s'.nextSeq = s.nextSeq) (hredo : ∀ r ∈ s'.redo, r ∈ s.redo)
    (hqueues : ∀ w, ((s'.ring w).q.map Desc.dg).Sublist ((s.ring w).q.map Desc.dg)) :
    Shrinks s s' := by
  have hreq : s'.finRequested = s.finRequested := congrArg Signs.finRequested hsigns
  have hclosed : s'.closed = s.closed := congrArg Signs.closed hsigns
  have hpeer : s'.peerFinSet = s.peerFinSet := congrArg Signs.peerFinSet hsigns
  exact ⟨hframes, hnext, congrArg Signs.log hsigns, hredo, hqueues,
    ⟨congrArg Signs.finPlaced hsigns, congrArg Signs.finOff hsigns⟩, hclosed.trans, hpeer.trans,
    hreq.trans, fun h => Or.inl (hreq.symm.trans h)⟩

lemma mem_queue_of_sublist {q q' : List Desc} (h : (q'.map Desc.dg).Sublist (q.map Desc.dg))
    {d : Desc} (hd : d ∈ q') : ∃ e ∈ q, e.dg = d.dg :=
  mem_map.mp (h.subset (mem_map_of_mem hd))

lemma Stamped.shrinks (h : Stamped p k s) (hs : Shrinks s s') : Stamped p k s' where
  low := by rw [hs.next]; exact h.low
  range := by rw [hs.frames, hs.next]; exact h.range
  body := by rw [hs.frames, hs.log]; exact h.body
  one := by rw [hs.frames]; exact h.one
  redo r hr := by rw [hs.frames]; exact h.redo r (hs.redo r hr)
  queued w d hd := by
    obtain ⟨e, he, hdg⟩ := mem_queue_of_sublist (hs.queues w) hd
    rw [hs.frames, hs.log, ← hdg]
    exact h.queued w e he
  distinct := by
    have hsub := ((hs.queues .tx).append (hs.queues .big)).map Dg.id
    simp only [ring_tx, ring_big, map_append, map_map] at hsub
    have hd := h.distinct
    rw [map_append] at hd ⊢
    exact hd.sublist hsub
  requested hr := by
    rcases hs.request hr with hr' | hr'
    · exact (h.requested hr').imp hs.closed hs.peerFinSet
    · exact hr'
  fixed hp := by
    obtain ⟨hreq, hoff, htx, hbig⟩ := h.fixed (hs.fin.1.symm.trans hp)
    have hempty : ∀ w, (s.ring w).q = [] → (s'.ring w).q = [] := fun w hq => by
      have hsub := hs.queues w
      rw [hq, map_nil] at hsub
      exact map_eq_nil_iff.mp (sublist_nil.mp hsub)
    exact ⟨hs.finRequested hreq, by rw [hs.fin.2, hs.next]; exact hoff, hempty .tx htx,
      hempty .big hbig⟩

/-! ### What the operations leave alone -/

lemma pop_history (w : Which) : (s.pop w).frames = s.frames ∧ (s.pop w).redo = s.redo := by
  unfold pop
  split
  · exact ⟨rfl, rfl⟩
  · dsimp only
    cases w <;> split <;> exact ⟨rfl, rfl⟩

lemma pop_shrinks (w : Which) : Shrinks s (s.pop w) := by
  refine .plain (pop_signs w) (pop_history w).1 (pop_nextSeq w)
    (fun r hr => by rwa [(pop_history w).2] at hr) fun v => ?_
  rcases hq : (s.ring w).q with _ | ⟨d, ds⟩
  · have hsame : s.pop w = s := by
      unfold pop
      rw [hq]
    rw [hsame]
  rw [pop_ring hq]
  split
  next hv =>
    rw [hv, hq]
    exact sublist_cons_self ..
  · exact refl _

lemma count_shrinks (b : Drop) : Shrinks s (s.count b) :=
  .plain rfl rfl rfl (fun _ => id) fun w => by rw [count_ring]

lemma Shrinks.trans (h : Shrinks s s') (h' : Shrinks s' s'') : Shrinks s s'' where
  frames := h'.frames.trans h.frames
  next := h'.next.trans h.next
  log := h'.log.trans h.log
  redo r hr := h.redo r (h'.redo r hr)
  queues w := (h'.queues w).trans (h.queues w)
  fin := ⟨h'.fin.1.trans h.fin.1, h'.fin.2.trans h.fin.2⟩
  closed hc := h'.closed (h.closed hc)
  peerFinSet hc := h'.peerFinSet (h.peerFinSet hc)
  finRequested hc := h'.finRequested (h.finRequested hc)
  request hr := by
    rcases h'.request hr with hr' | hr'
    · rcases h.request hr' with hr'' | hr'' | hr''
      · exact Or.inl hr''
      · exact Or.inr (Or.inl (h'.closed hr''))
      · exact Or.inr (Or.inr (h'.peerFinSet hr''))
    · exact Or.inr hr'

lemma redoDrop_shrinks (b : Drop) : Shrinks s (s.redoDrop b) := by
  refine .plain (redoDrop_frame b).2.1 ?_ (redoDrop_frame b).2.2 ?_ fun w => ?_ <;> unfold redoDrop
  · split <;> rfl
  · split
    · exact fun _ => id
    next r rest hr =>
    intro x hx
    rw [hr]
    exact mem_cons_of_mem _ hx
  · split
    · exact refl _
    · cases w <;> exact refl _

lemma pktAgeStart_shrinks (t : Int) : Shrinks s (s.pktAgeStart t) := by
  refine ⟨rfl, rfl, rfl, fun _ => id, fun w => ?_, ⟨rfl, rfl⟩, id, id, id, Or.inl⟩
  cases w <;> simp only [pktAgeStart, ring, map_map] <;> exact refl _

lemma pktLaneGone_shrinks (i : Nat) : Shrinks s (s.pktLaneGone i) := by
  have hrel : ∀ j, (s.recRelease j).frames = s.frames ∧ (s.recRelease j).redo = s.redo ∧
      (s.recRelease j).txBig = s.txBig := fun j => by
    unfold recRelease
    split <;> exact ⟨rfl, rfl, rfl⟩
  obtain ⟨htx, hsigns, hnext⟩ := pktLaneGone_frame (s := s) i
  have hrest : (s.pktLaneGone i).frames = s.frames ∧ (s.pktLaneGone i).redo = s.redo ∧
      (s.pktLaneGone i).txBig = s.txBig := by
    unfold pktLaneGone
    split
    · exact ⟨rfl, rfl, rfl⟩
    split
    · exact hrel _
    · exact ⟨rfl, rfl, rfl⟩
  refine .plain hsigns hrest.1 hnext (fun r hr => by rwa [hrest.2.1] at hr) fun w => ?_
  cases w
  · rw [ring_tx, ring_tx, htx]
  · rw [ring_big, ring_big, hrest.2.2]

lemma marks_shrinks (h : Marks s s') : Shrinks s s' := by
  rw [h.rest]
  refine ⟨rfl, rfl, rfl, fun _ => id, fun w => ?_, ⟨rfl, rfl⟩, id, id, id, Or.inl⟩
  cases w <;> exact refl _

lemma shuts_shrinks (h : Shuts s s') : Shrinks s s' := by
  have hrest := h.rest
  refine ⟨by rw [hrest], by rw [hrest], by rw [hrest], fun r hr => by rwa [hrest] at hr,
    fun w => ?_, ⟨by rw [hrest], by rw [hrest]⟩, h.closed, h.peerFinSet, h.requested, h.request⟩
  rw [hrest]
  cases w <;> exact refl _

/-! ### Placements -/

lemma record_history (i : Nat) (e : Entry) :
    (s.record i e).frames = s.frames ∧ (s.record i e).redo = s.redo ∧
    (s.record i e).txBig = s.txBig := by
  unfold record
  split <;> exact ⟨rfl, rfl, rfl⟩

/-- A placement adds its frame. -/
lemma pktPlaced_history (i : Nat) (dg : Bool) (f : Frame) (t : Int) (wide : Bool) (c : Nat) :
    (s.pktPlaced i dg f t wide c).frames = (i, f) :: s.frames ∧
    (s.pktPlaced i dg f t wide c).redo = s.redo ∧
    (s.pktPlaced i dg f t wide c).txBig = s.txBig := by
  unfold pktPlaced
  repeat' split
  all_goals
    first
      | exact ⟨rfl, rfl, rfl⟩
      | obtain ⟨hf, hr, hb⟩ := record_history (s := _) i ⟨f.seq, t, c, wide, true⟩
        exact ⟨hf, hr, hb⟩

lemma Stamped.requested_same {u : Snd} (h : Stamped p k s) (hsigns : u.signs = s.signs) :
    u.finRequested = true → u.closed = true ∨ u.peerFinSet = true := by
  rw [show u.finRequested = s.finRequested from congrArg Signs.finRequested hsigns,
    show u.closed = s.closed from congrArg Signs.closed hsigns,
    show u.peerFinSet = s.peerFinSet from congrArg Signs.peerFinSet hsigns]
  exact h.requested

/-- A returned datagram is placed again: its frame once more. -/
lemma Stamped.placeRedoHead (h : Stamped p k s) (i : Nat) (dg : Bool) :
    Stamped p k (s.placeRedoHead i dg) ∧ Grows s (s.placeRedoHead i dg) := by
  rcases hr : s.redo with _ | ⟨r, rest⟩
  · rw [Snd.placeRedoHead, hr]
    exact ⟨h, .refl s⟩
  obtain ⟨htx, hsigns, hnext⟩ := placeRedoHead_frame (s := s) i dg
  have hhist : (s.placeRedoHead i dg).frames = (i, ⟨r.seq, r.dg⟩) :: s.frames ∧
      (s.placeRedoHead i dg).redo = rest ∧ (s.placeRedoHead i dg).txBig = s.txBig := by
    rw [Snd.placeRedoHead, hr]
    exact pktPlaced_history (s := { s with redo := rest }) ..
  obtain ⟨hframes, hredo, hbig⟩ := hhist
  generalize s.placeRedoHead i dg = u at *
  have hlog : u.log = s.log := congrArg Signs.log hsigns
  obtain ⟨j, hj⟩ := h.redo r (by rw [hr]; exact mem_cons_self ..)
  -- whatever holds of every frame holds of the new one, which differs from an old one in the lane
  have hold : ∀ x ∈ u.frames, ∃ y ∈ s.frames, y.2 = x.2 := fun x hx => by
    rw [hframes] at hx
    rcases mem_cons.mp hx with rfl | hx
    · exact ⟨_, hj, rfl⟩
    · exact ⟨x, hx, rfl⟩
  have hring : ∀ w, u.ring w = s.ring w := fun w => by
    cases w
    · exact htx
    · exact hbig
  have hgrow : ∀ x ∈ s.frames, x ∈ u.frames := fun x hx => by
    rw [hframes]
    exact mem_cons_of_mem _ hx
  refine ⟨⟨by rw [hnext]; exact h.low, fun x hx => ?_, fun x hx => ?_, fun x hx y hy => ?_,
    fun r' hr' => ?_, fun w d hd => ?_, by rw [htx, hbig]; exact h.distinct, ?_, ?_⟩,
    hgrow, le_of_eq hnext.symm, fun n b hb => by rwa [hlog], fun hp => ?_⟩
  · obtain ⟨y, hy, heq⟩ := hold x hx
    rw [← heq, hnext]
    exact h.range y hy
  · obtain ⟨y, hy, heq⟩ := hold x hx
    rw [← heq, hlog]
    exact h.body y hy
  · obtain ⟨x', hx', hxe⟩ := hold x hx
    obtain ⟨y', hy', hye⟩ := hold y hy
    rw [← hxe, ← hye]
    exact h.one x' hx' y' hy'
  · rw [hredo] at hr'
    obtain ⟨j', hj'⟩ := h.redo r' (by rw [hr]; exact mem_cons_of_mem _ hr')
    exact ⟨j', hgrow _ hj'⟩
  · rw [hring] at hd
    obtain ⟨hk, hb, hne⟩ := h.queued w d hd
    rw [hlog]
    refine ⟨hk, hb, fun x hx => ?_⟩
    obtain ⟨y, hy, heq⟩ := hold x hx
    rw [← heq]
    exact hne y hy
  · exact h.requested_same hsigns
  · rw [show u.finPlaced = s.finPlaced from congrArg Signs.finPlaced hsigns,
      show u.finRequested = s.finRequested from congrArg Signs.finRequested hsigns,
      show u.finOff = s.finOff from congrArg Signs.finOff hsigns, hnext, htx, hbig]
    exact h.fixed
  · exact ⟨(congrArg Signs.finPlaced hsigns).trans hp, congrArg Signs.finOff hsigns⟩

/-- The head of a queue leaves with the next seq, which no frame has, as no frame is of it. -/
lemma Stamped.placeHead (h : Stamped p k s) (w : Which) (i : Nat) (dg : Bool) :
    Stamped p k (s.placeHead w i dg) ∧ Grows s (s.placeHead w i dg) := by
  rcases hq : (s.ring w).q with _ | ⟨d, ds⟩
  · rw [Snd.placeHead, hq]
    exact ⟨h, .refl s⟩
  have hsigns := placeHead_signs (s := s) w i dg
  obtain ⟨hpf, hpr, hpb⟩ := pktPlaced_history (s := s) i dg ⟨s.nextSeq, d.dg⟩ d.at d.wide 0
  have hpt := (pktPlaced_frame (s := s) i dg ⟨s.nextSeq, d.dg⟩ d.at d.wide 0).1
  have hpring : ∀ v, (s.pktPlaced i dg ⟨s.nextSeq, d.dg⟩ d.at d.wide 0).ring v = s.ring v := by
    intro v
    cases v
    · exact hpt
    · exact hpb
  have hu : (s.placeHead w i dg).frames = (i, ⟨s.nextSeq, d.dg⟩) :: s.frames ∧
      (s.placeHead w i dg).redo = s.redo ∧ (s.placeHead w i dg).nextSeq = s.nextSeq + 1 ∧
      ∀ v, ((s.placeHead w i dg).ring v).q = if v = w then ds else (s.ring v).q := by
    rw [Snd.placeHead, hq]
    refine ⟨(pop_history w).1.trans hpf, (pop_history w).2.trans hpr, rfl, fun v => ?_⟩
    have hq' : ((s.pktPlaced i dg ⟨s.nextSeq, d.dg⟩ d.at d.wide 0).ring w).q = d :: ds := by
      rw [hpring, hq]
    have hpop := pop_ring hq' v
    rw [hpring, hpring] at hpop
    have hv := congrArg Ring.q hpop
    rw [apply_ite Ring.q] at hv
    cases v <;> exact hv
  obtain ⟨hframes, hredo, hnext, hring⟩ := hu
  generalize s.placeHead w i dg = u at *
  have hlog : u.log = s.log := congrArg Signs.log hsigns
  have hd := h.queued w d (by rw [hq]; exact mem_cons_self ..)
  -- a fixed final seq leaves no queued datagram
  have hfin : s.finPlaced = false := by
    by_contra hp
    rw [Bool.not_eq_false] at hp
    obtain ⟨-, -, htx, hbig⟩ := h.fixed hp
    cases w
    · rw [ring_tx, htx] at hq
      cases hq
    · rw [ring_big, hbig] at hq
      cases hq
  have hfin' : u.finPlaced = false := (congrArg Signs.finPlaced hsigns).trans hfin
  have hsub : ∀ v, (u.ring v).q.Sublist (s.ring v).q := fun v => by
    rw [hring]
    split
    next hv =>
      rw [hv, hq]
      exact sublist_cons_self ..
    · exact refl _
  have hgrow : ∀ x ∈ s.frames, x ∈ u.frames := fun x hx => by
    rw [hframes]
    exact mem_cons_of_mem _ hx
  -- no datagram still queued is the one placed
  have hother : ∀ v, ∀ e ∈ (u.ring v).q, e.dg.id ≠ d.dg.id := by
    have hdist := h.distinct
    rw [map_append, nodup_append] at hdist
    obtain ⟨hdtx, hdbig, hcross⟩ := hdist
    intro v e he
    rw [hring] at he
    cases w <;> cases v <;> simp only [ring_tx, ring_big, reduceCtorEq, if_true, if_false] at he hq
    · rw [hq, map_cons, nodup_cons] at hdtx
      exact fun heq => hdtx.1 (heq ▸ mem_map_of_mem he)
    · have hmem : d.dg.id ∈ s.tx.q.map fun d => d.dg.id := by
        rw [hq]
        exact mem_cons_self ..
      exact fun heq => hcross _ hmem _ (mem_map_of_mem he) heq.symm
    · have hmem : d.dg.id ∈ s.txBig.q.map fun d => d.dg.id := by
        rw [hq]
        exact mem_cons_self ..
      exact fun heq => hcross _ (mem_map_of_mem he) _ hmem heq
    · rw [hq, map_cons, nodup_cons] at hdbig
      exact fun heq => hdbig.1 (heq ▸ mem_map_of_mem he)
  refine ⟨⟨by rw [hnext]; exact Nat.le_succ_of_le h.low, fun x hx => ?_, fun x hx => ?_,
    fun x hx y hy => ?_, fun r hr => ?_, fun v e he => ?_, ?_, ?_, fun hp => ?_⟩, hgrow,
    by rw [hnext]; exact Nat.le_succ _, fun n b hb => by rwa [hlog], fun hp => ?_⟩
  · rw [hframes] at hx
    rw [hnext]
    rcases mem_cons.mp hx with rfl | hx
    · exact ⟨h.low, Nat.lt_succ_self _⟩
    · exact ⟨(h.range x hx).1, Nat.lt_succ_of_lt (h.range x hx).2⟩
  · rw [hframes] at hx
    rw [hlog]
    rcases mem_cons.mp hx with rfl | hx
    · exact ⟨hd.1, hd.2.1⟩
    · exact h.body x hx
  · rw [hframes] at hx hy
    rcases mem_cons.mp hx with rfl | hx <;> rcases mem_cons.mp hy with rfl | hy
    · exact iff_of_true rfl rfl
    · exact iff_of_false (fun heq => hd.2.2 y hy heq.symm) fun heq =>
        Nat.ne_of_lt (h.range y hy).2 heq.symm
    · exact iff_of_false (hd.2.2 x hx) fun heq => Nat.ne_of_lt (h.range x hx).2 heq
    · exact h.one x hx y hy
  · rw [hredo] at hr
    obtain ⟨j, hj⟩ := h.redo r hr
    exact ⟨j, hgrow _ hj⟩
  · obtain ⟨hk, hb, hne⟩ := h.queued v e ((hsub v).subset he)
    rw [hlog, hframes]
    refine ⟨hk, hb, fun x hx => ?_⟩
    rcases mem_cons.mp hx with rfl | hx
    · exact (hother v e he).symm
    · exact hne x hx
  · exact h.distinct.sublist (((hsub .tx).append (hsub .big)).map _)
  · exact h.requested_same hsigns
  · rw [hfin'] at hp
    cases hp
  · rw [hfin] at hp
    cases hp

/-- The FIN is due only with both queues empty. -/
lemma Stamped.fixFin (hm : p.mode ≠ .race) (h : Stamped p k s) {i : Nat}
    (hdue : s.finDue p i now = true) : Stamped p k (s.fixFin now) ∧ Grows s (s.fixFin now) := by
  unfold Snd.fixFin
  split
  · exact ⟨h, .refl s⟩
  next hp =>
  rw [finDue, if_neg hm] at hdue
  simp only [Bool.and_eq_true, List.isEmpty_iff] at hdue
  obtain ⟨⟨⟨⟨⟨hreq, -⟩, -⟩, htx⟩, hbig⟩, -⟩ := hdue
  refine ⟨{ h with queued := fun w => ?_, fixed := fun _ => ⟨hreq, rfl, htx, hbig⟩ },
    fun _ => id, le_rfl, fun _ _ => id, fun hp' => absurd hp' hp⟩
  have hw := h.queued w
  cases w <;> exact hw

/-- **One move** of a selector or bond session. -/
lemma Stamped.move (hm : p.mode ≠ .race) (hmove : Move p now s s') (h : Stamped p k s) :
    Stamped p k s' ∧ Grows s s' := by
  have hshrink : Shrinks s s' → Stamped p k s' ∧ Grows s s' := fun hs => ⟨h.shrinks hs, hs.grows⟩
  cases hmove with
  | sent w hw => exact hshrink (pop_shrinks w)
  | drop w b d ds hq hw => exact hshrink ((pop_shrinks w).trans (count_shrinks b))
  | headRedo d ds hrace hq hw h0 => exact absurd hrace hm
  | redoDrop b => exact hshrink (redoDrop_shrinks b)
  | redoPlace i dg => exact h.placeRedoHead i dg
  | place w i dg hne => exact h.placeHead w i dg
  | placeAt j i dg d hrace hq hage => exact absurd hrace hm
  | cursor i r hr ha | raced | attach l hr h0 =>
    exact hshrink ⟨rfl, rfl, rfl, fun _ => id, fun w => by cases w <;> exact refl _,
      ⟨rfl, rfl⟩, id, id, id, Or.inl⟩
  | ageStart hoff => exact hshrink (pktAgeStart_shrinks now)
  | fixFin i hdue => exact h.fixFin hm hdue
  | marks s' hk => exact hshrink (marks_shrinks hk)
  | shuts s' hk => exact hshrink (shuts_shrinks hk)
  | lost i => exact hshrink (pktLaneGone_shrinks i)

/-- A sequence of moves. -/
lemma Stamped.moves (hm : p.mode ≠ .race) (h : Stamped p k s) (hmoves : Moves p now s s') :
    Stamped p k s' ∧ Grows s s' :=
  hmoves.inv (fun t => Stamped p k t ∧ Grows s t)
    (fun _ _ hmove ht => by
      obtain ⟨hst, hgr⟩ := ht.1.move hm hmove
      exact ⟨hst, ht.2.trans hgr⟩) ⟨h, .refl s⟩

/-! ### Hand-back and WriteTo -/

/-- What a hand-back leaves alone, and what it may add to the redo list. -/
lemma pktUnsent_history (i : Nat) (f : Frame) (t : Int) :
    (s.pktUnsent i f t).frames = s.frames ∧ (s.pktUnsent i f t).txBig = s.txBig ∧
    ∀ r ∈ (s.pktUnsent i f t).redo, r ∈ s.redo ∨ (r.seq = f.seq ∧ r.dg = f.dg) := by
  have hins : ∀ (a r : Redo) (l : List Redo), r ∈ redoPush a l → r ∈ l ∨ r = a := fun a r l hr =>
    (mem_cons.mp ((redoPush_perm a l).mem_iff.mp hr)).symm
  have hredo : ∀ (u : Snd) (a : Redo), (u.pktRedo a).frames = u.frames ∧
      (u.pktRedo a).txBig = u.txBig ∧ ∀ r ∈ (u.pktRedo a).redo, r ∈ u.redo ∨ r = a := by
    intro u a
    unfold pktRedo
    split
    · exact ⟨rfl, rfl, fun r hr => Or.inl hr⟩
    · exact ⟨rfl, rfl, fun r hr => hins a r _ hr⟩
  unfold pktUnsent
  split
  · exact ⟨rfl, rfl, fun r hr => Or.inl hr⟩
  next l hl =>
  have hhand : (handed l f t).seq = f.seq ∧ (handed l f t).dg = f.dg := by
    unfold handed
    split <;> exact ⟨rfl, rfl⟩
  have hdone : ∀ u : Snd, u.frames = s.frames → u.txBig = s.txBig → u.redo = s.redo →
      (u.pktRedo (handed l f t)).frames = s.frames ∧
      (u.pktRedo (handed l f t)).txBig = s.txBig ∧
      ∀ r ∈ (u.pktRedo (handed l f t)).redo, r ∈ s.redo ∨ (r.seq = f.seq ∧ r.dg = f.dg) := by
    intro u hf hb hr
    obtain ⟨h1, h2, h3⟩ := hredo u (handed l f t)
    refine ⟨h1.trans hf, h2.trans hb, fun r hmem => ?_⟩
    rcases h3 r hmem with h | rfl
    · exact Or.inl (hr ▸ h)
    · exact Or.inr hhand
  unfold uncount
  split
  · exact hdone _ rfl rfl rfl
  dsimp only
  split
  · exact ⟨rfl, rfl, fun r hr => Or.inl hr⟩
  split
  · exact ⟨rfl, rfl, fun r hr => Or.inl hr⟩
  · exact hdone _ rfl rfl rfl

/-- A frame placed on lane `i` is handed back: it keeps its seq. -/
lemma Stamped.pktUnsent (h : Stamped p k s) {i : Nat} {f : Frame} (hf : (i, f) ∈ s.frames)
    (t : Int) : Stamped p k (s.pktUnsent i f t) ∧ Grows s (s.pktUnsent i f t) := by
  obtain ⟨htx, hsigns, hnext⟩ := pktUnsent_frame (s := s) i f t
  obtain ⟨hframes, hbig, hredo⟩ := pktUnsent_history (s := s) i f t
  generalize s.pktUnsent i f t = u at *
  -- the redo list with the frame handed back is as good as before
  let mid : Snd := { u with redo := s.redo }
  have hring : ∀ w, u.ring w = s.ring w := fun w => by
    cases w
    · exact htx
    · exact hbig
  have hmid : Shrinks s mid := by
    refine .plain hsigns hframes hnext (fun _ => id) fun w => ?_
    rw [show mid.ring w = u.ring w by cases w <;> rfl, hring]
  have hst := h.shrinks hmid
  refine ⟨{ hst with redo := fun r hr => ?_, queued := fun w => ?_ }, { hmid.grows with }⟩
  · rcases hredo r hr with hold | ⟨hseq, hdg⟩
    · exact hst.redo r hold
    · refine ⟨i, ?_⟩
      rw [hseq, hdg, hframes]
      exact hf
  · have hw := hst.queued w
    cases w <;> exact hw

/-- The next datagram is accepted. -/
lemma Stamped.accept (h : Stamped p k s) (body : List UInt8) :
    Stamped p k { s with log := s.log ++ [body] } := by
  have hlog : ∀ n b, s.log[n]? = some b → (s.log ++ [body])[n]? = some b := fun n b hb => by
    rw [getElem?_append_left (List.getElem?_eq_some_iff.mp hb).1]
    exact hb
  refine { h with body := fun x hx => ?_, queued := fun w d hd => ?_ }
  · obtain ⟨hk, hb⟩ := h.body x hx
    exact ⟨hk, hlog _ _ hb⟩
  · obtain ⟨hk, hb, hne⟩ := h.queued w d (by cases w <;> exact hd)
    exact ⟨hk, hlog _ _ hb, hne⟩

/-- It is queued, behind datagrams accepted before it. -/
lemma Stamped.append (h : Stamped p k s) {d : Desc} (hid : d.dg.id = k)
    (hbody : s.log[d.dg.id]? = some d.dg.body) (hfin : s.finPlaced = false) (w : Which) :
    Stamped p (k + 1) (s.append w d) := by
  have hlt : ∀ v, ∀ e ∈ (s.ring v).q, e.dg.id ≠ d.dg.id := fun v e he => by
    have := (h.queued v e he).1
    omega
  have hframe : ∀ x ∈ s.frames, x.2.dg.id ≠ d.dg.id := fun x hx => by
    have := (h.body x hx).1
    omega
  have hring : ∀ v, ((s.append w d).ring v).q = (s.ring v).q ++ if v = w then [d] else [] := by
    intro v
    cases v <;> cases w <;> simp [Snd.append, Snd.setRing, ring]
  have hrest : (s.append w d).frames = s.frames ∧ (s.append w d).log = s.log ∧
      (s.append w d).nextSeq = s.nextSeq ∧ (s.append w d).redo = s.redo ∧
      (s.append w d).finRequested = s.finRequested ∧ (s.append w d).closed = s.closed ∧
      (s.append w d).peerFinSet = s.peerFinSet ∧ (s.append w d).finPlaced = s.finPlaced := by
    cases w <;> exact ⟨rfl, rfl, rfl, rfl, rfl, rfl, rfl, rfl⟩
  obtain ⟨hframes, hlog, hnext, hredo, hreq, hclosed, hpeer, hplaced⟩ := hrest
  have htx := hring .tx
  have hbig := hring .big
  rw [ring_tx, ring_tx] at htx
  rw [ring_big, ring_big] at hbig
  generalize s.append w d = u at *
  refine ⟨by rw [hnext]; exact h.low, by rw [hframes, hnext]; exact h.range, fun x hx => ?_,
    by rw [hframes]; exact h.one, by rw [hredo, hframes]; exact h.redo, fun v e he => ?_, ?_,
    by rw [hreq, hclosed, hpeer]; exact h.requested, fun hp => ?_⟩
  · rw [hframes] at hx
    rw [hlog]
    exact ⟨Nat.lt_succ_of_lt (h.body x hx).1, (h.body x hx).2⟩
  · rw [hring, mem_append] at he
    rw [hlog, hframes]
    rcases he with he | he
    · obtain ⟨hk, hb, hne⟩ := h.queued v e he
      exact ⟨Nat.lt_succ_of_lt hk, hb, hne⟩
    split at he
    · rw [mem_singleton] at he
      subst he
      exact ⟨by omega, hbody, hframe⟩
    · cases he
  · have hd := h.distinct
    rw [htx, hbig]
    simp only [map_append, nodup_append, mem_map, mem_append] at hd ⊢
    obtain ⟨hdtx, hdbig, hcross⟩ := hd
    have hne := fun v e he => hlt v e he
    cases w
    · simp only [reduceCtorEq, if_true, if_false, map_nil, map_cons, mem_singleton,
        not_mem_nil]
      refine ⟨⟨hdtx, nodup_singleton _, ?_⟩, ⟨hdbig, nodup_nil, ?_⟩, ?_⟩
      · rintro _ ⟨e, he, rfl⟩ _ ⟨e', rfl, rfl⟩
        exact hlt .tx e he
      · rintro _ _ _ ⟨_, ⟨⟩, _⟩
      · rintro _ (⟨e, he, rfl⟩ | ⟨e, rfl, rfl⟩) _ (⟨e', he', rfl⟩ | ⟨_, ⟨⟩, _⟩)
        · exact hcross _ ⟨e, he, rfl⟩ _ ⟨e', he', rfl⟩
        · exact (hlt .big e' he').symm
    simp only [reduceCtorEq, if_true, if_false, map_nil, map_cons, mem_singleton,
      not_mem_nil]
    refine ⟨⟨hdtx, nodup_nil, ?_⟩, ⟨hdbig, nodup_singleton _, ?_⟩, ?_⟩
    · rintro _ _ _ ⟨_, ⟨⟩, _⟩
    · rintro _ ⟨e, he, rfl⟩ _ ⟨e', rfl, rfl⟩
      exact hlt .big e he
    · rintro _ (⟨e, he, rfl⟩ | ⟨_, ⟨⟩, _⟩) _ (⟨e', he', rfl⟩ | ⟨e', rfl, rfl⟩)
      · exact hcross _ ⟨e, he, rfl⟩ _ ⟨e', he', rfl⟩
      · exact hlt .tx e he
  · rw [hplaced, hfin] at hp
    cases hp

/-- Every id is that of an accepted datagram, whatever bound was known before. -/
lemma Stamped.toLog (h : Stamped p k s) : Stamped p s.log.length s :=
  { h with
    body := fun x hx => ⟨(List.getElem?_eq_some_iff.mp (h.body x hx).2).1, (h.body x hx).2⟩
    queued := fun w d hd =>
      ⟨(List.getElem?_eq_some_iff.mp (h.queued w d hd).2.1).1, (h.queued w d hd).2⟩ }

/-- `WriteTo` accepts a datagram only while no final seq is fixed. -/
lemma Stamped.writeTo (hm : p.mode ≠ .race) (h : Stamped p s.log.length s) (body : List UInt8)
    (t : Int) (pin : PushIn) :
    Stamped p (s.writeTo p body t pin).1.log.length (s.writeTo p body t pin).1 ∧
    Grows s (s.writeTo p body t pin).1 := by
  rcases writeTo_moves (p := p) 0 body t pin s with heq | ⟨hopen, hpeer, -, s', hs', hsigns, hq⟩
  · rw [heq]
    exact ⟨h, .refl s⟩
  obtain ⟨hst, hgr⟩ := (h.accept body).moves hm hs'
  have hlog : s'.log = s.log ++ [body] := congrArg Signs.log hsigns
  have hlonger : Grows s { s with log := s.log ++ [body] } := by
    refine ⟨fun _ => id, le_rfl, fun n b hb => ?_, fun hp => ⟨hp, rfl⟩⟩
    rw [getElem?_append_left (List.getElem?_eq_some_iff.mp hb).1]
    exact hb
  have hgrow := hlonger.trans hgr
  generalize (s.writeTo p body t pin).1 = u at hq
  cases hq with
  | dropped =>
    exact ⟨(hst.shrinks (count_shrinks .queue)).toLog, hgrow.trans (count_shrinks .queue).grows⟩
  | queued w wide =>
    have hfin : s'.finPlaced = false := by
      by_contra hp
      rw [Bool.not_eq_false] at hp
      rcases hst.requested (hst.fixed hp).1 with hc | hc
      · rw [show s'.closed = s.closed from congrArg Signs.closed hsigns, hopen] at hc
        cases hc
      · rw [show s'.peerFinSet = s.peerFinSet from congrArg Signs.peerFinSet hsigns, hpeer] at hc
        cases hc
    have hnew : s'.log[s.log.length]? = some body := by
      rw [hlog, getElem?_concat_length]
    have happ := hst.append (d := ⟨⟨s.log.length, body⟩, t, wide, 0, 0⟩) rfl hnew hfin w
    refine ⟨happ.toLog, hgrow.trans ?_⟩
    cases w <;> exact ⟨fun _ => id, le_rfl, fun _ _ => id, fun hp => ⟨hp, rfl⟩⟩

/-- **One event**, whose hand-back, if it is one, is of a frame placed on that lane. -/
lemma Stamped.step (hm : p.mode ≠ .race) (h : Stamped p s.log.length s) (ev : Ev)
    (hback : ∀ i f t, ev = .unsent i f t → (i, f) ∈ s.frames) :
    Stamped p (s.step p ev).log.length (s.step p ev) ∧ Grows s (s.step p ev) := by
  rcases step_cases p 0 s ev with ⟨body, t, pin, rfl⟩ | ⟨i, f, t, rfl⟩ | ⟨now, -, hmoves⟩
  · exact h.writeTo hm body t pin
  · obtain ⟨hst, hgr⟩ := h.pktUnsent (hback i f t rfl) t
    exact ⟨hst.toLog, hgr⟩
  · obtain ⟨hst, hgr⟩ := h.moves hm hmoves
    exact ⟨hst.toLog, hgr⟩

lemma Stamped.start (p : Params) : Stamped p (start p).log.length (start p) where
  low := le_rfl
  range x hx := by cases hx
  body x hx := by cases hx
  one x hx := by cases hx
  redo r hr := by cases hr
  queued w d hd := by cases w <;> cases hd
  distinct := nodup_nil
  requested hr := by cases hr
  fixed hp := by cases hp

end Snd

end Rendr.Dgram
