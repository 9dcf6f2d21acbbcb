import Mathlib.Logic.Relation
import Rendr.Dgram.Send

/-!
# What the send path does to a datagram

Every loop of the packet send path is a sequence of a few elementary moves: a queued datagram
leaves as sent or as a drop, joins the redo list or is placed; a returned one is placed or given
up; a cursor, a flag or a lane's routing mark changes. `Move` lists them with the condition under
which the code makes each, and each function has one lemma that it only makes such moves, ending
in `step_moves`. An invariant is then a statement about single moves.

A move is made at a clock reading `now`: the reading of the Fill it belongs to.
-/

namespace Rendr.Dgram

open Lane List
open Relation (ReflTransGen)

/-- Only what routing and the carriers change differs: marks of lanes, the routing summary, the
exhausted flag, the last no-path episode and where the FIN is. -/
structure Marks (s s' : Snd) : Prop where
  recs : s'.lanes.map recs = s.lanes.map recs
  rpos : s'.lanes.map rpos = s.lanes.map rpos
  rest : s' = { s with lanes := s'.lanes, dgMax := s'.dgMax, dgMin := s'.dgMin, mixed := s'.mixed,
                       exhausted := s'.exhausted, finLane := s'.finLane
                       noPathEnd := s'.noPathEnd }

/-- Only the flags of the end differ: what was closed stays closed, and the FIN is requested only
once this side closed or the peer's FIN came. -/
structure Shuts (s s' : Snd) : Prop where
  recs : s'.lanes.map recs = s.lanes.map recs
  rpos : s'.lanes.map rpos = s.lanes.map rpos
  closed : s.closed = true → s'.closed = true
  peerFinSet : s.peerFinSet = true → s'.peerFinSet = true
  requested : s.finRequested = true → s'.finRequested = true
  request : s'.finRequested = true →
    s.finRequested = true ∨ s'.closed = true ∨ s'.peerFinSet = true
  rest : s' = { s with lanes := s'.lanes, closed := s'.closed, peerFinSet := s'.peerFinSet
                       finRequested := s'.finRequested, peerFirst := s'.peerFirst
                       ended := s'.ended, finAcked := s'.finAcked, finLane := s'.finLane }

/-- One elementary move of the send side. -/
inductive Move (p : Params) (now : Int) : Snd → Snd → Prop
  /-- The head leaves uncounted: a placement of it may have left. -/
  | sent (s : Snd) (w : Which) (h : s.headPlaced w = true) : Move p now s (s.pop w)
  /-- The head leaves as a drop. -/
  | drop (s : Snd) (w : Which) (b : Drop) (d : Desc) (ds : List Desc) (hq : (s.ring w).q = d :: ds)
      (h : p.mode ≠ .race ∨ s.headPlaced w = false) : Move p now s ((s.pop w).count b)
  /-- The race head, every placement of which came back, joins the redo list. -/
  | headRedo (s : Snd) (d : Desc) (ds : List Desc) (hm : p.mode = .race) (hq : s.tx.q = d :: ds)
      (h : s.headPlaced .tx = false) (h0 : d.seq ≠ 0) : Move p now s s.raceRedoHead
  /-- The oldest returned datagram is given up. -/
  | redoDrop (s : Snd) (b : Drop) : Move p now s (s.redoDrop b)
  /-- The oldest returned datagram is placed again. -/
  | redoPlace (s : Snd) (i : Nat) (dg : Bool) : Move p now s (s.placeRedoHead i dg)
  /-- Selector and bond: the head is placed. -/
  | place (s : Snd) (w : Which) (i : Nat) (dg : Bool) (hm : p.mode ≠ .race) :
      Move p now s (s.placeHead w i dg)
  /-- Race: a queued datagram that is young at this reading is placed. -/
  | placeAt (s : Snd) (j i : Nat) (dg : Bool) (d : Desc) (hm : p.mode = .race)
      (hq : s.tx.q[j]? = some d) (hage : now - d.at ≤ p.maxAge) : Move p now s (s.placeAt j i dg)
  /-- Race: a lane's cursor moves, in a Fill that may place. -/
  | cursor (s : Snd) (i r : Nat) (hr : s.tx.raced = true) (ha : s.ageOn = true) :
      Move p now s (s.setCursor i r)
  /-- `raceInit`. -/
  | raced (s : Snd) : Move p now s { s with tx.raced := true }
  /-- MaxAge's clock starts. -/
  | ageStart (s : Snd) (h : s.ageOn = false) : Move p now s (s.pktAgeStart now)
  /-- The FIN's final seq is fixed, in a Fill in which the FIN is due. -/
  | fixFin (s : Snd) (i : Nat) (h : s.finDue p i now = true) : Move p now s (s.fixFin now)
  | marks (s s' : Snd) (h : Marks s s') : Move p now s s'
  | shuts (s s' : Snd) (h : Shuts s s') : Move p now s s'
  /-- The record of a dead lane joins the dying ones. -/
  | lost (s : Snd) (i : Nat) : Move p now s (s.pktLaneGone i)
  /-- A lane is attached, its cursor not beyond the queue's head. -/
  | attach (s : Snd) (l : Lane) (hr : l.rpos ≤ s.tx.pos) (h0 : l.recs = []) :
      Move p now s { s with lanes := s.lanes ++ [l] }

/-- A sequence of moves. -/
def Moves (p : Params) (now : Int) : Snd → Snd → Prop := ReflTransGen (Move p now)

variable {p : Params} {now : Int} {s s' s'' : Snd}

namespace Moves

lemma refl : Moves p now s s := ReflTransGen.refl

lemma one (h : Move p now s s') : Moves p now s s' := ReflTransGen.single h

lemma trans (h : Moves p now s s') (h' : Moves p now s' s'') : Moves p now s s'' :=
  ReflTransGen.trans h h'

/-- What every move preserves, a sequence of moves preserves. -/
lemma inv (h : Moves p now s s') (Inv : Snd → Prop)
    (hmove : ∀ t t', Move p now t t' → Inv t → Inv t') (hs : Inv s) : Inv s' := by
  induction h with
  | refl => exact hs
  | tail _ hlast ih => exact hmove _ _ hlast ih

end Moves

/-- A DGRAM more leaves the batch's clock reading and its kind. -/
lemma Batch.addDgram_some {b b' : Batch} {n : Nat} (h : b.addDgram n = some b') :
    b'.now = b.now ∧ b'.dg = b.dg := by
  unfold Batch.addDgram at h
  split at h
  · cases h
  split at h
  · cases h
  split at h
  · cases h
  cases h
  exact ⟨rfl, rfl⟩

namespace Snd

/-! ### Small facts about the operations -/

@[simp] lemma ring_tx : s.ring .tx = s.tx := rfl

@[simp] lemma ring_big : s.ring .big = s.txBig := rfl

variable {d : Desc} {ds : List Desc}

lemma headPlaced_cons {w : Which} (hq : (s.ring w).q = d :: ds) :
    s.headPlaced w = !s.unplaced d := by
  unfold headPlaced
  rw [hq]

variable (w : Which)

@[simp] lemma count_ring (b : Drop) : (s.count b).ring w = s.ring w := by
  cases w <;> rfl

/-- A pop takes the head, and nothing of the other queue. -/
lemma pop_ring {w : Which} (hq : (s.ring w).q = d :: ds) (v : Which) :
    (s.pop w).ring v = if v = w then { s.ring w with q := ds, pos := (s.ring w).pos + 1 }
      else s.ring v := by
  unfold pop
  rw [hq]
  dsimp only
  cases v <;> cases w <;> split <;> rfl

/-! ### What the operations on datagrams leave alone -/

/-- The flags, the cursors and the history of accepted datagrams: what no operation on a single
datagram changes. -/
structure Signs where
  ageOn : Bool
  raced : Bool
  rpos : List Nat
  finRequested : Bool
  finAcked : Bool
  finPlaced : Bool
  finOff : Nat
  finNow : Int
  closed : Bool
  peerFinSet : Bool
  peerFirst : Bool
  ended : Bool
  log : List (List UInt8)

/-- Those of a state. -/
def signs (s : Snd) : Signs :=
  ⟨s.ageOn, s.tx.raced, s.lanes.map rpos, s.finRequested, s.finAcked, s.finPlaced, s.finOff,
    s.finNow, s.closed, s.peerFinSet, s.peerFirst, s.ended, s.log⟩

@[simp] lemma count_signs (b : Drop) : (s.count b).signs = s.signs := rfl

@[simp] lemma pop_signs : (s.pop w).signs = s.signs := by
  unfold pop
  split
  · rfl
  · dsimp only
    cases w <;> split <;> rfl

@[simp] lemma pop_nextSeq : (s.pop w).nextSeq = s.nextSeq := by
  unfold pop
  split
  · rfl
  · dsimp only
    cases w <;> split <;> rfl

/-- Replacing a lane by one with the same `f` keeps the list of all `f`. -/
lemma map_set_eq {α : Type} (f : Lane → α) {ls : List Lane} {i : Nat} {l l' : Lane}
    (hl : ls[i]? = some l) (hf : f l' = f l) : (ls.set i l').map f = ls.map f := by
  refine ext_getElem? fun k => ?_
  rw [getElem?_map, getElem?_map, getElem?_set]
  by_cases hk : i = k
  · subst hk
    rw [if_pos rfl, if_pos (List.getElem?_eq_some_iff.mp hl).1, hl, Option.map_some, hf,
      Option.map_some]
  · rw [if_neg hk]

variable (i : Nat)

/-- The queue, the flags and the next seq are as before. -/
abbrev Framed (s s' : Snd) : Prop := s'.tx = s.tx ∧ s'.signs = s.signs ∧ s'.nextSeq = s.nextSeq

/-- A lane's record does not show in the flags. -/
lemma set_signs {s' : Snd} {i : Nat} {l l' : Lane} (hl : s.lanes[i]? = some l)
    (h : s'.signs = { s.signs with rpos := (s.lanes.set i l').map rpos })
    (hr : l'.rpos = l.rpos) : s'.signs = s.signs := by
  rw [h, map_set_eq rpos hl hr]
  rfl

lemma record_frame (e : Entry) : Framed s (s.record i e) := by
  unfold record
  split
  · exact ⟨rfl, rfl, rfl⟩
  next l hl => exact ⟨rfl, set_signs hl rfl rfl, rfl⟩

lemma pktPlaced_frame (dg : Bool) (f : Frame) (t : Int) (wide : Bool) (c : Nat) :
    Framed s (s.pktPlaced i dg f t wide c) := by
  unfold pktPlaced
  repeat' split
  all_goals first | exact record_frame i _ | exact ⟨rfl, rfl, rfl⟩

lemma pktRedo_frame (r : Redo) : Framed s (s.pktRedo r) := by
  unfold pktRedo
  split <;> exact ⟨rfl, rfl, rfl⟩

lemma redoDrop_frame (b : Drop) : Framed s (s.redoDrop b) := by
  unfold redoDrop
  split <;> exact ⟨rfl, rfl, rfl⟩

@[simp] lemma raceRedoHead_signs : s.raceRedoHead.signs = s.signs := by
  unfold raceRedoHead
  split
  · rfl
  · rw [(pktRedo_frame _).2.1, pop_signs]
    rfl

@[simp] lemma raceRedoHead_nextSeq : s.raceRedoHead.nextSeq = s.nextSeq := by
  unfold raceRedoHead
  split
  · rfl
  · rw [(pktRedo_frame _).2.2, pop_nextSeq]

lemma placeRedoHead_frame (dg : Bool) : Framed s (s.placeRedoHead i dg) := by
  unfold placeRedoHead
  split
  · exact ⟨rfl, rfl, rfl⟩
  · exact pktPlaced_frame ..

@[simp] lemma placeHead_signs (i : Nat) (dg : Bool) : (s.placeHead w i dg).signs = s.signs := by
  unfold placeHead
  split
  · rfl
  · exact (pop_signs w).trans (pktPlaced_frame ..).2.1

/-- The descriptor `d` as its first placement leaves it. -/
def firstPlaced (s : Snd) (d : Desc) : Desc :=
  { d with seq := s.nextSeq + 1, cell := (s.pool.alloc ⟨0, true, s.nextSeq⟩).1 }

/-- Placing a queued race datagram changes its seq and its cell only. -/
lemma placeAt_tx {j : Nat} (hq : s.tx.q[j]? = some d) (i : Nat) (dg : Bool) :
    (s.placeAt j i dg).tx =
      if d.seq = 0 then { s.tx with q := s.tx.q.set j (s.firstPlaced d) } else s.tx := by
  unfold placeAt
  rw [hq]
  dsimp only
  split <;> exact (pktPlaced_frame ..).1

lemma placeAt_nextSeq {j : Nat} (hq : s.tx.q[j]? = some d) (i : Nat) (dg : Bool) :
    (s.placeAt j i dg).nextSeq = if d.seq = 0 then s.nextSeq + 1 else s.nextSeq := by
  unfold placeAt
  rw [hq]
  dsimp only
  split <;> exact (pktPlaced_frame ..).2.2

@[simp] lemma placeAt_signs (j i : Nat) (dg : Bool) : (s.placeAt j i dg).signs = s.signs := by
  unfold placeAt
  split
  · rfl
  · split <;> exact (pktPlaced_frame ..).2.1

lemma recRelease_frame : Framed s (s.recRelease i) := by
  unfold recRelease
  split
  · exact ⟨rfl, rfl, rfl⟩
  next l hl => exact ⟨rfl, set_signs hl rfl rfl, rfl⟩

lemma uncount_frame (r : Redo) : Framed s (s.uncount r) := by
  unfold uncount
  split
  · exact pktRedo_frame r
  dsimp only
  split
  · exact ⟨rfl, rfl, rfl⟩
  split
  · exact ⟨rfl, rfl, rfl⟩
  · exact pktRedo_frame r

/-- A hand-back changes neither the queue nor the flags. -/
lemma pktUnsent_frame (f : Frame) (t : Int) : Framed s (s.pktUnsent i f t) := by
  unfold pktUnsent
  split
  · exact ⟨rfl, rfl, rfl⟩
  next l hl =>
    obtain ⟨htx, hsigns, hnext⟩ := uncount_frame (s := s.takeEntry i l f.seq) (handed l f t)
    exact ⟨htx, hsigns.trans (set_signs hl rfl rfl), hnext⟩

/-- A dead lane's record changes neither the queue nor the flags. -/
lemma pktLaneGone_frame : Framed s (s.pktLaneGone i) := by
  unfold pktLaneGone
  split
  · exact ⟨rfl, rfl, rfl⟩
  split
  · exact recRelease_frame _
  · exact ⟨rfl, rfl, rfl⟩

/-! ### Evictions -/

lemma evict_moves (b : Drop) (hq : (s.ring w).q = d :: ds) : Moves p now s (s.evict w b) := by
  unfold evict
  split
  next h => exact .one (.sent s w h)
  next h => exact .one (.drop s w b d ds hq (Or.inr (by simpa using h)))

lemma evictWhile_moves (more : Snd → Desc → Bool) (b : Desc → Drop) (k : Nat) (s : Snd) :
    Moves p now s (evictWhile w more b k s) := by
  induction k generalizing s with
  | zero => exact .refl
  | succ k ih =>
    unfold evictWhile
    rcases hq : (s.ring w).q with _ | ⟨d, ds⟩
    · exact .refl
    dsimp only
    split
    · exact (evict_moves w (b d) hq).trans (ih _)
    · exact .refl

lemma evict_signs (b : Drop) (s : Snd) : (s.evict w b).signs = s.signs := by
  unfold evict
  split
  · rw [pop_signs]
  · rw [count_signs, pop_signs]

lemma evictWhile_signs (more : Snd → Desc → Bool) (b : Desc → Drop) (k : Nat) (s : Snd) :
    (evictWhile w more b k s).signs = s.signs := by
  induction k generalizing s with
  | zero => rfl
  | succ k ih =>
    unfold evictWhile
    rcases (s.ring w).q with _ | ⟨d, ds⟩
    · rfl
    dsimp only
    split
    · rw [ih, evict_signs]
    · rfl

lemma releaseAll_moves (b : Drop) (s : Snd) : Moves p now s (s.releaseAll w b) :=
  evictWhile_moves ..

lemma pktAgeQueue_moves (t : Int) (noData : Bool) (s : Snd) :
    Moves p now s (s.pktAgeQueue p w t noData) := by
  unfold pktAgeQueue
  rcases (s.ring w).q with _ | ⟨d, ds⟩
  · exact .refl
  dsimp only
  split
  · exact .refl
  · exact evictWhile_moves ..

lemma pktAgeQueue_signs (t : Int) (noData : Bool) (s : Snd) :
    (s.pktAgeQueue p w t noData).signs = s.signs := by
  unfold pktAgeQueue
  rcases (s.ring w).q with _ | ⟨d, ds⟩
  · rfl
  dsimp only
  split
  · rfl
  · exact evictWhile_signs ..

/-! ### The race head and routing -/

lemma raceHeadLoop_moves (hm : p.mode = .race) (lo : Nat) (t : Int) (k : Nat) (s : Snd) :
    Moves p now s (raceHeadLoop p lo t k s) := by
  induction k generalizing s with
  | zero => exact .refl
  | succ k ih =>
    unfold raceHeadLoop
    rcases hq : s.tx.q with _ | ⟨d, ds⟩
    · exact .refl
    dsimp only
    split
    · exact .refl
    split
    next h => exact (Moves.one (.sent s .tx h)).trans (ih _)
    next hplaced =>
    have hplaced : s.headPlaced .tx = false := by simpa using hplaced
    split
    next h =>
      simp only [Bool.and_eq_true, bne_iff_ne] at h
      exact (Moves.one (.headRedo s d ds hm hq hplaced h.1.2)).trans (ih _)
    · exact (Moves.one (.drop s .tx _ d ds hq (Or.inr hplaced))).trans (ih _)

lemma raceHead_moves (hm : p.mode = .race) (t : Int) (s : Snd) :
    Moves p now s (s.raceHead p t) := by
  unfold raceHead
  split
  · exact raceHeadLoop_moves hm ..
  · exact .refl

/-- Changing other fields of the lanes keeps their records and cursors. -/
lemma marks_map (f : Lane → Lane) (hrecs : ∀ l, (f l).recs = l.recs)
    (hrpos : ∀ l, (f l).rpos = l.rpos) (ls : List Lane) :
    (ls.map f).map recs = ls.map recs ∧ (ls.map f).map rpos = ls.map rpos := by
  simp only [map_map]
  exact ⟨map_congr_left fun l _ => hrecs l, map_congr_left fun l _ => hrpos l⟩

lemma marks_modify (f : Lane → Lane) (hrecs : ∀ l, (f l).recs = l.recs)
    (hrpos : ∀ l, (f l).rpos = l.rpos) (ls : List Lane) (i : Nat) :
    (ls.modify i f).map recs = ls.map recs ∧
    (ls.modify i f).map rpos = ls.map rpos := by
  induction ls generalizing i with
  | nil => simp
  | cons l ls ih =>
    cases i with
    | zero => simp [hrecs, hrpos]
    | succ i => simp [ih i]

lemma routeMarks_marks (p : Params) (s : Snd) : Marks s (s.routeMarks p) := by
  obtain ⟨hrecs, hrpos⟩ := marks_map (fun l => if l.live then { l with awaitSched := false } else l)
    (fun l => by split <;> rfl) (fun l => by split <;> rfl) s.lanes
  exact ⟨hrecs, hrpos, rfl⟩

lemma pktRoute_moves (t : Int) (s : Snd) : Moves p now s (s.pktRoute p t) := by
  -- the summary and the lanes' marks, then `txBig`, then the race head
  have hbig : Moves p now s (if !s.streamLane && !s.heldMember then
      (s.routeMarks p).releaseAll .big .tooLarge else s.routeMarks p) := by
    refine (Moves.one (.marks s _ (routeMarks_marks p s))).trans ?_
    split
    · exact releaseAll_moves ..
    · exact .refl
  unfold pktRoute
  dsimp only
  split
  next hm => exact hbig.trans (raceHead_moves hm ..)
  · exact hbig

lemma pktOtherCarrier_moves (i n : Nat) (ever : Bool) (t : Int) (s : Snd) :
    Moves p now s (s.pktOtherCarrier p i n ever t).1 := pktRoute_moves t s

/-- Evictions from one queue leave the other alone. -/
lemma evictWhile_ring {v w : Which} (hv : v ≠ w) (more : Snd → Desc → Bool) (b : Desc → Drop)
    (k : Nat) (s : Snd) : (evictWhile w more b k s).ring v = s.ring v := by
  induction k generalizing s with
  | zero => rfl
  | succ k ih =>
    unfold evictWhile
    rcases hq : (s.ring w).q with _ | ⟨d, ds⟩
    · rfl
    dsimp only
    split
    · have hevict : (s.evict w (b d)).ring v = s.ring v := by
        unfold evict
        split
        · rw [pop_ring hq, if_neg hv]
        · rw [count_ring, pop_ring hq, if_neg hv]
      rw [ih, hevict]
    · rfl

/-- Outside race a routing step leaves `tx` alone. -/
lemma pktRoute_tx (hm : p.mode ≠ .race) (t : Int) (s : Snd) : (s.pktRoute p t).tx = s.tx := by
  unfold pktRoute
  rw [if_neg hm]
  split
  · exact evictWhile_ring (v := .tx) (by decide) ..
  · rfl

/-! ### The redo list -/

lemma placeRedoLoop_moves (i k : Nat) (s : Snd) (b : Batch) :
    Moves p now s (placeRedoLoop p i k s b).1 := by
  induction k generalizing s b with
  | zero => exact .refl
  | succ k ih =>
    unfold placeRedoLoop
    rcases s.redo with _ | ⟨r, rs⟩
    · exact .refl
    dsimp only
    split
    · exact (Moves.one (.redoDrop ..)).trans (ih ..)
    split
    · split
      · exact pktOtherCarrier_moves i r.dg.n r.wide b.wall s
      · exact ((pktOtherCarrier_moves i r.dg.n r.wide b.wall s).trans (.one (.redoDrop ..))).trans
          (ih ..)
    split
    · exact .refl
    rcases b.addDgram r.dg.n with _ | b'
    · exact .refl
    · exact (Moves.one (.redoPlace ..)).trans (ih ..)

lemma placeRedo_moves (s : Snd) (b : Batch) : Moves p now s (s.placeRedo p i b).1 :=
  placeRedoLoop_moves ..

lemma pktRedoRelease_moves (s : Snd) : Moves p now s s.pktRedoRelease := by
  have hall : ∀ (rs : List Redo) (s : Snd),
      Moves p now s (rs.foldl (fun s _ => s.redoDrop .queue) s) := by
    intro rs
    induction rs with
    | nil => exact fun _ => .refl
    | cons r rs ih => exact fun s => (Moves.one (.redoDrop ..)).trans (ih _)
  exact hall s.redo s

lemma pktRedoAge_moves (t : Int) (k : Nat) (s : Snd) : Moves p now s (pktRedoAge p t k s) := by
  induction k generalizing s with
  | zero => exact .refl
  | succ k ih =>
    unfold pktRedoAge
    rcases s.redo with _ | ⟨r, rs⟩
    · exact .refl
    dsimp only
    split
    · exact .refl
    · exact (Moves.one (.redoDrop ..)).trans (ih _)

lemma releaseQueues_moves (s : Snd) : Moves p now s s.releaseQueues :=
  ((releaseAll_moves ..).trans (releaseAll_moves ..)).trans (pktRedoRelease_moves _)

/-! ### Fill -/

lemma placeQueue_moves (hm : p.mode ≠ .race) (i : Nat) (w : Which) (k : Nat) (s : Snd) (b : Batch)
    (hdg : w = .big → b.dg = false) : Moves p now s (placeQueue p i w k s b).1 := by
  induction k generalizing s b with
  | zero => exact .refl
  | succ k ih =>
    unfold placeQueue
    rcases hq : (s.ring w).q with _ | ⟨d, ds⟩
    · exact .refl
    dsimp only
    split
    · exact (Moves.one (.drop s w _ d ds hq (Or.inl hm))).trans (ih _ _ hdg)
    split
    next hroom =>
      have hcar : Moves p now s (s.pktOtherCarrier p i d.dg.n d.wide b.wall).1 :=
        pktOtherCarrier_moves ..
      split
      · exact hcar
      -- only a datagram lane comes here, on `tx`, which the routing step left alone
      have hw : w = .tx := by
        cases w
        · rfl
        · simp [hdg rfl] at hroom
      subst hw
      have hq' : ((s.pktOtherCarrier p i d.dg.n d.wide b.wall).1.ring .tx).q = d :: ds := by
        rw [← hq]
        exact congrArg Ring.q (pktRoute_tx hm ..)
      exact (hcar.trans (.one (.drop _ .tx _ d ds hq' (Or.inl hm)))).trans (ih _ _ hdg)
    split
    · exact .refl
    split
    · exact .one (.marks _ _ ⟨rfl, rfl, rfl⟩)
    rcases ha : b.addDgram d.dg.n with _ | b'
    · exact .refl
    · refine (Moves.one (.place _ _ _ _ hm)).trans (ih _ _ fun hw => ?_)
      rw [(Batch.addDgram_some ha).2, hdg hw]

lemma placeDgrams_moves (hm : p.mode ≠ .race) (i : Nat) (b : Batch) (s : Snd) :
    Moves p now s (s.placeDgrams p i b) := by
  have hredo : Moves p now s (s.placeRedo p i b).1 := placeRedo_moves ..
  unfold placeDgrams
  dsimp only
  split
  · exact hredo
  split
  · exact hredo.trans (placeQueue_moves hm _ _ _ _ _ (by simp))
  next hdg =>
  have hbig := hredo.trans (placeQueue_moves hm i .big (s.placeRedo p i b).1.txBig.q.length
    (s.placeRedo p i b).1 (s.placeRedo p i b).2.1 fun _ => by simpa using hdg)
  split
  · exact hbig
  · exact hbig.trans (placeQueue_moves hm _ _ _ _ _ (by simp))

lemma raceFillLoop_moves (hm : p.mode = .race) (i k j : Nat) (s : Snd) (b : Batch) :
    Moves p b.now s (raceFillLoop p i k j s b).1 := by
  induction k generalizing j s b with
  | zero => exact .refl
  | succ k ih =>
    unfold raceFillLoop
    rcases hq : s.tx.q[j]? with _ | d
    · exact .refl
    dsimp only
    split
    · exact ih ..
    next hage =>
    split
    · split
      · exact ih ..
      · exact .refl
    split
    · exact .refl
    split
    · exact .one (.marks _ _ ⟨rfl, rfl, rfl⟩)
    rcases ha : b.addDgram d.dg.n with _ | b'
    · exact .refl
    have hnow : b'.now = b.now := (Batch.addDgram_some ha).1
    refine (Moves.one (.placeAt s j i b.dg d hm hq (not_lt.mp hage))).trans ?_
    rw [← hnow]
    exact ih ..

/-- Once the race arrays and MaxAge's clock are on, they stay on. -/
lemma move_on (h : Move p now s s') (hon : s.signs.raced = true ∧ s.signs.ageOn = true) :
    s'.signs.raced = true ∧ s'.signs.ageOn = true := by
  cases h with
  | sent w h => rwa [pop_signs]
  | drop w b d ds hq h => rwa [count_signs, pop_signs]
  | headRedo => rwa [raceRedoHead_signs]
  | redoDrop => rwa [(redoDrop_frame _).2.1]
  | redoPlace => rwa [(placeRedoHead_frame ..).2.1]
  | place => rwa [placeHead_signs]
  | placeAt => rwa [placeAt_signs]
  | cursor => exact hon
  | raced => exact ⟨rfl, hon.2⟩
  | ageStart => exact ⟨hon.1, rfl⟩
  | fixFin i h =>
    unfold fixFin
    split <;> exact hon
  | marks s' h | shuts s' h =>
    rw [h.rest]
    exact hon
  | lost i => rwa [(pktLaneGone_frame i).2.1]
  | attach l hr h0 => exact hon

lemma moves_on (h : Moves p now s s') (hon : s.signs.raced = true ∧ s.signs.ageOn = true) :
    s'.signs.raced = true ∧ s'.signs.ageOn = true :=
  h.inv (fun t => t.signs.raced = true ∧ t.signs.ageOn = true) (fun _ _ => move_on) hon

lemma racePass_moves (hm : p.mode = .race) (hon : s.signs.raced = true ∧ s.signs.ageOn = true)
    (i : Nat) (b : Batch) : Moves p b.now s (s.racePass p i b) := by
  have hloop := raceFillLoop_moves hm i (s.tx.q.length - (s.cursor i - s.tx.pos))
    (s.cursor i - s.tx.pos) s b
  have hon' := moves_on hloop hon
  exact hloop.trans (.one (.cursor _ _ _ hon'.1 hon'.2))

/-- Placing the redo list keeps the clock reading of the Fill. -/
lemma placeRedoLoop_now (i k : Nat) (s : Snd) (b : Batch) :
    (placeRedoLoop p i k s b).2.1.now = b.now := by
  induction k generalizing s b with
  | zero => rfl
  | succ k ih =>
    unfold placeRedoLoop
    rcases s.redo with _ | ⟨r, rs⟩
    · rfl
    dsimp only
    split
    · exact ih ..
    split
    · split
      · rfl
      · exact ih _ b.tick
    split
    · rfl
    rcases ha : b.addDgram r.dg.n with _ | b'
    · rfl
    · exact (ih _ b').trans (Batch.addDgram_some ha).1

lemma raceFillDgrams_moves (hm : p.mode = .race) (ha : s.ageOn = true) (i : Nat) (b : Batch) :
    Moves p b.now s (s.raceFillDgrams p i b) := by
  have hinit : Moves p b.now s { s with tx.raced := true } := .one (.raced s)
  have hhead : Moves p b.now { s with tx.raced := true }
      ({ s with tx.raced := true }.raceHead p b.now) := raceHead_moves hm ..
  unfold raceFillDgrams
  generalize hs0 : { s with tx.raced := true }.raceHead p b.now = s0 at hhead
  have hredo : Moves p b.now s0 (s0.placeRedo p i b).1 := placeRedo_moves ..
  have hnow : (s0.placeRedo p i b).2.1.now = b.now := placeRedoLoop_now ..
  have hon := moves_on (hhead.trans hredo) ⟨rfl, ha⟩
  dsimp only
  split
  · exact hinit.trans (hhead.trans hredo)
  · have hpass := racePass_moves hm hon i (s0.placeRedo p i b).2.1
    rw [hnow] at hpass
    exact ((hinit.trans (hhead.trans hredo)).trans hpass).trans (raceHead_moves hm ..)

lemma fillDgram_moves (b : Batch) (s : Snd) : Moves p b.now s (s.fillDgram p i b) := by
  unfold fillDgram
  split
  · exact .refl
  -- MaxAge's clock runs when the lane places
  have hstart : Moves p b.now s (if s.ageOn then s else s.pktAgeStart b.now) ∧
      (if s.ageOn then s else s.pktAgeStart b.now).ageOn = true := by
    split
    next h => exact ⟨.refl, h⟩
    next h => exact ⟨.one (.ageStart s (by simpa using h)), rfl⟩
  obtain ⟨hmoves, hon⟩ := hstart
  dsimp only
  split
  next hm => exact hmoves.trans (raceFillDgrams_moves hm hon i b)
  next hm => exact hmoves.trans (placeDgrams_moves hm i b _)

lemma finOn_marks (s : Snd) : Marks s (s.finOn i) := by
  obtain ⟨hrecs, hrpos⟩ := marks_modify (fun l => { l with finHere := true }) (fun _ => rfl)
    (fun _ => rfl) s.lanes i
  exact ⟨hrecs, hrpos, rfl⟩

lemma fillPacket_moves (b : Batch) (s : Snd) : Moves p b.now s (s.fillPacket p i b) := by
  unfold fillPacket
  split
  · exact .refl
  split
  · exact .refl
  have hdata : Moves p b.now s (if b.ctl then s else s.fillDgram p i b) := by
    split
    · exact .refl
    · exact fillDgram_moves ..
  dsimp only
  generalize (if b.ctl then s else s.fillDgram p i b) = s1 at hdata ⊢
  split
  next hdue =>
    have hfix := hdata.trans (.one (.fixFin _ i hdue))
    split
    · exact hfix.trans (.one (.marks _ _ (finOn_marks ..)))
    · exact hfix
  · exact hdata

/-! ### Whole events -/

lemma laneGone_moves (t : Int) (s : Snd) : Moves p now s (s.laneGone p i t) := by
  unfold laneGone
  split
  · exact .refl
  next l hl =>
  split
  · exact .refl
  have hmarks : Marks s (s.markDead i l) :=
    ⟨map_set_eq recs hl rfl, map_set_eq rpos hl rfl, rfl⟩
  have hdead : Moves p now s ((s.markDead i l).pktLaneGone i) :=
    (Moves.one (.marks _ _ hmarks)).trans (.one (.lost ..))
  split
  · exact hdead
  · exact hdead.trans (pktRoute_moves ..)

lemma close_shuts (s : Snd) : Shuts s { s with closed := true, finRequested := true } :=
  ⟨rfl, rfl, fun _ => rfl, id, fun _ => rfl, fun _ => Or.inr (Or.inl rfl), rfl⟩

lemma peerFin_moves (s : Snd) : Moves p now s s.peerFin := by
  unfold peerFin
  split
  · exact .refl
  split
  next h =>
    exact .one (.shuts _ _ ⟨rfl, rfl, id, fun _ => rfl, id, fun _ => Or.inl h, rfl⟩)
  · exact (Moves.one (.shuts s { s with peerFinSet := true, finRequested := true, peerFirst := true }
      ⟨rfl, rfl, id, fun _ => rfl, fun _ => rfl, fun _ => Or.inr (Or.inr rfl), rfl⟩)).trans
      (releaseQueues_moves _)

lemma ackFin_moves (s : Snd) : Moves p now s s.ackFin := by
  unfold ackFin
  split
  · exact .refl
  refine .one (.shuts s _ ?_)
  rcases s.finLane with _ | i
  · exact ⟨rfl, rfl, id, id, id, Or.inl, rfl⟩
  · obtain ⟨hrecs, hrpos⟩ := marks_modify (fun l => { l with finHere := false }) (fun _ => rfl)
      (fun _ => rfl) s.lanes i
    exact ⟨hrecs, hrpos, id, id, id, Or.inl, rfl⟩

/-- **What an event does**: every event other than a WriteTo and a hand-back is a sequence of
moves, at the clock reading of its Fill if it is one and at any reading else. -/
lemma step_moves (s : Snd) (ev : Ev) (hw : ∀ body t pin, ev ≠ .writeTo body t pin)
    (hu : ∀ i f t, ev ≠ .unsent i f t) (hnow : ∀ i b, ev = .fill i b → b.now = now) :
    Moves p now s (step p s ev) := by
  cases ev with
  | writeTo body t pin => exact absurd rfl (hw body t pin)
  | unsent i f t => exact absurd rfl (hu i f t)
  | fill i b =>
    have hfill := fillPacket_moves (p := p) i b s
    rwa [hnow i b rfl] at hfill
  | laneGone i t => exact laneGone_moves ..
  | attach dg member atHead =>
    refine .one (.attach s _ ?_ rfl)
    dsimp only
    split <;> omega
  | routing data route t =>
    have hmarks : Marks s { s with lanes := s.lanes.zipIdx.map fun x =>
        if x.1.dead then x.1 else { x.1 with data := (data[x.2]?).getD x.1.data } } := by
      refine ⟨?_, ?_, rfl⟩
      all_goals
        refine ext_getElem? fun k => ?_
        simp only [map_map, getElem?_map, getElem?_zipIdx, Option.map_map]
        rcases s.lanes[k]? with _ | l
        · rfl
        · simp only [Option.map_some, Function.comp_apply]
          split <;> rfl
    simp only [step]
    split
    · exact (Moves.one (.marks _ _ hmarks)).trans (pktRoute_moves ..)
    · exact .one (.marks _ _ hmarks)
  | confirm i t =>
    simp only [step]
    split
    · obtain ⟨hrecs, hrpos⟩ := marks_modify (fun l => { l with awaitSched := true }) (fun _ => rfl)
        (fun _ => rfl) s.lanes i
      exact (Moves.one (.marks s _ ⟨hrecs, hrpos, rfl⟩)).trans (pktRoute_moves ..)
    · exact .refl
  | port i member blocked closeSent dgramMax spare =>
    obtain ⟨hrecs, hrpos⟩ := marks_modify
      (fun l => { l with member := member, blocked := blocked, closeSent := closeSent
                         dgramMax := dgramMax, spare := spare }) (fun _ => rfl) (fun _ => rfl)
      s.lanes i
    exact .one (.marks s _ ⟨hrecs, hrpos, rfl⟩)
  | ageOut t =>
    exact ((pktRedoAge_moves ..).trans (pktAgeQueue_moves ..)).trans (pktAgeQueue_moves ..)
  | ageBig t =>
    simp only [step, pktAgeBig]
    split
    · exact pktAgeQueue_moves ..
    · exact .refl
  | pathBack t => exact .one (.marks s _ ⟨rfl, rfl, rfl⟩)
  | close =>
    simp only [step, close]
    split
    · exact .refl
    · exact .one (.shuts _ _ (close_shuts s))
  | peerFin => exact peerFin_moves s
  | ackFin => exact ackFin_moves s
  | finish =>
    exact (Moves.one (.shuts s { s with ended := true }
      ⟨rfl, rfl, id, id, id, Or.inl, rfl⟩)).trans (releaseQueues_moves _)

/-- **The three kinds of events**: a WriteTo, a hand-back, and those that are moves, at the clock
reading of the Fill or, for an event that is none, at any reading `t₀`. -/
lemma step_cases (p : Params) (t₀ : Int) (s : Snd) (ev : Ev) :
    (∃ body t pin, ev = .writeTo body t pin) ∨ (∃ i f t, ev = .unsent i f t) ∨
    ∃ now, ((∃ i b, ev = .fill i b ∧ b.now = now) ∨ now = t₀) ∧ Moves p now s (step p s ev) := by
  by_cases hw : ∃ body t pin, ev = .writeTo body t pin
  · exact Or.inl hw
  by_cases hu : ∃ i f t, ev = .unsent i f t
  · exact Or.inr (Or.inl hu)
  have hmoves : ∀ now, (∀ i b, ev = .fill i b → b.now = now) → Moves p now s (step p s ev) :=
    fun now => step_moves s ev (fun body t pin he => hw ⟨body, t, pin, he⟩)
      (fun i f t he => hu ⟨i, f, t, he⟩)
  refine Or.inr (Or.inr ?_)
  by_cases hf : ∃ i b, ev = .fill i b
  · obtain ⟨i, b, rfl⟩ := hf
    exact ⟨b.now, Or.inl ⟨i, b, rfl, rfl⟩, hmoves _ fun _ _ he => by cases he; rfl⟩
  · exact ⟨t₀, Or.inr rfl, hmoves _ fun i b he => absurd ⟨i, b, he⟩ hf⟩

/-- What an accepted datagram becomes once older ones made room for it: a queued one of the right
queue, or a drop. -/
inductive Queued (g : Dg) (t : Int) (s : Snd) : Snd → Prop
  | dropped : Queued g t s (s.count .queue)
  | queued (w : Which) (wide : Bool) : Queued g t s (s.append w ⟨g, t, wide, 0, 0⟩)

lemma push_moves (g : Dg) (t : Int) (wide : Bool) (pin : PushIn) (s : Snd) :
    ∃ s', Moves p now s s' ∧ s'.signs = s.signs ∧
      Queued g t s' (s.push p w ⟨g, t, wide, 0, 0⟩ pin) := by
  unfold push
  dsimp only
  -- the evictions for the queue's bounds, then those for the chunk ring
  have h1 : Moves p now s (evictWhile w
      (fun s _ => p.queue < s.charge w + pcharge g.n || p.maxN ≤ (s.ring w).q.length)
      (fun _ => .queue) (s.ring w).q.length s) := evictWhile_moves ..
  have g1 := evictWhile_signs w
    (fun s _ => p.queue < s.charge w + pcharge g.n || p.maxN ≤ (s.ring w).q.length)
    (fun _ => .queue) (s.ring w).q.length s
  generalize evictWhile w
    (fun s _ => p.queue < s.charge w + pcharge g.n || p.maxN ≤ (s.ring w).q.length)
    (fun _ => .queue) (s.ring w).q.length s = s1 at h1 g1 ⊢
  split
  · exact ⟨s1, h1, g1, .queued ..⟩
  have h2 : Moves p now s (evictWhile w (fun _ _ => true) (fun _ => .queue) pin.spare s1) :=
    h1.trans (evictWhile_moves ..)
  have g2 := (evictWhile_signs w (fun _ _ => true) (fun _ => .queue) pin.spare s1).trans g1
  generalize evictWhile w (fun _ _ => true) (fun _ => .queue) pin.spare s1 = s2 at h2 g2 ⊢
  split
  · exact ⟨s2, h2, g2, .queued ..⟩
  rcases hq : (s2.ring w).q with _ | ⟨d, ds⟩
  · exact ⟨s2, h2, g2, .dropped⟩
  have h3 := h2.trans (evict_moves w .queue hq)
  have g3 := (evict_signs w .queue s2).trans g2
  simp only [isEmpty_cons, Bool.false_eq_true, if_false]
  split
  · exact ⟨_, h3, g3, .queued ..⟩
  · exact ⟨_, h3, g3, .dropped⟩

/-- **What a WriteTo does**: nothing, or the datagram is accepted, older ones leave, and it is
queued or dropped. -/
lemma writeTo_moves (now : Int) (body : List UInt8) (t : Int) (pin : PushIn) (s : Snd) :
    (s.writeTo p body t pin).1 = s ∨
    (s.closed = false ∧ s.peerFinSet = false ∧ s.ended = false ∧
      ∃ s', Moves p now { s with log := s.log ++ [body] } s' ∧
        s'.signs = { s.signs with log := s.log ++ [body] } ∧
        Queued ⟨s.log.length, body⟩ t s' (s.writeTo p body t pin).1) := by
  unfold writeTo
  split
  · exact Or.inl rfl
  next hopen =>
  split
  · exact Or.inl rfl
  next hended =>
  iterate 3
    split
    · exact Or.inl rfl
  simp only [Bool.or_eq_true, not_or, Bool.not_eq_true] at hopen
  refine Or.inr ⟨hopen.1, hopen.2, by simpa using hended, ?_⟩
  split
  · exact ⟨_, .refl, rfl, .dropped⟩
  -- heads that aged out leave first, then those the push evicts
  have hage : Moves p now { s with log := s.log ++ [body] }
    (pktAgeQueue { s with log := s.log ++ [body] } p
      (if s.mixed && decide (s.dgMax < body.length) then .big else .tx) t false) :=
    pktAgeQueue_moves ..
  obtain ⟨s', hs', hsigns, hq⟩ := push_moves _ _ t _ pin _
  exact ⟨s', hage.trans hs', hsigns.trans (pktAgeQueue_signs ..), hq⟩

end Snd

end Rendr.Dgram
