import Mathlib.Tactic.Linarith
import Mathlib.Tactic.Ring
import Rendr.Session.SendRun

/-!
# The chunks of the send buffer

Sent bytes live in chunks of 64 KiB in a ring whose capacity is fixed by the window. The ring's
base follows the acknowledged front: whole chunks leave at its head, and when everything that was
reserved is acknowledged the last one is dropped too and the base is rounded down to a chunk
boundary.

* `ChunkInv` — the base is at most one chunk behind the front, and the chunks held reach the
  reserved end; `step_chunks` says that every event keeps it;
* `reserveChunks_done` — within the window the ring is never the reason a reservation stops short;
* `fill_reads_held` — every read of a Fill addresses a held chunk and stays inside it, and so do
  the copies of a Write and of the early span;
* `send_chunks_cover` — all of it in every state that has not ended.
-/

namespace Rendr

open List Session

/-! ### Addressing -/

namespace Tx

/-- `chunkFor`: the place in the ring of the chunk that holds `off`, and the position in it. -/
def chunkFor (t : Tx) (off : Nat) : Nat × Nat :=
  ((off - t.cbase) / chunkSize, (off - t.cbase) % chunkSize)

/-- A read of `n` bytes at `off` addresses a chunk the ring holds, at the place of `off` in it, and
stays inside that chunk. -/
structure Holds (t : Tx) (off n : Nat) : Prop where
  /-- the distance to the base does not wrap -/
  base : t.cbase ≤ off
  index : (t.chunkFor off).1 < t.chunks
  inside : t.cbase + (t.chunkFor off).1 * chunkSize + (t.chunkFor off).2 = off
  fits : (t.chunkFor off).2 + n ≤ chunkSize

/-- What lies between the base and the end of the chunks is held. -/
lemma Holds.of_range {t : Tx} {off n : Nat} (h1 : t.cbase ≤ off)
    (h2 : off < t.cbase + t.chunks * chunkSize) (h3 : n ≤ t.chunkEnd off - off) : t.Holds off n := by
  have hdiv := Nat.div_add_mod (off - t.cbase) chunkSize
  have hpos : 0 < chunkSize := by decide
  have hmod := Nat.mod_lt (off - t.cbase) hpos
  refine ⟨h1, ?_, ?_, ?_⟩
  · exact Nat.div_lt_of_lt_mul (by rw [Nat.mul_comm]; omega)
  · simp only [chunkFor]
    rw [Nat.mul_comm]
    omega
  · simp only [chunkFor]
    unfold chunkEnd at h3
    omega

end Tx

/-! ### The chunk ring and the counters it depends on -/

/-- The entries of the chunk ring. -/
def Params.ringCap (p : Params) : Nat := p.window.toNat / chunkSize + 2

/-- **The invariant of the chunk ring.** -/
structure ChunkInv (p : Params) (c : ChunkPart) : Prop where
  base : c.cbase ≤ c.sBase
  /-- the first chunk is not fully acknowledged -/
  near : c.sBase < c.cbase + chunkSize
  front : c.sBase ≤ c.endOff
  /-- the round being copied is what is reserved and not committed -/
  round : c.endOff + (c.wround.getD []).length = c.resEnd
  cover : c.sBase < c.resEnd → c.resEnd ≤ c.cbase + c.chunks * chunkSize
  cap : c.chunks ≤ p.ringCap

lemma ChunkInv.init (p : Params) : ChunkInv p (init p).chunkPart where
  base := le_rfl
  near := Nat.lt_add_of_pos_right (by decide)
  front := le_rfl
  round := rfl
  cover := fun h => absurd h (lt_irrefl _)
  cap := Nat.zero_le _

/-! ### Reserving -/

/-- The reservation loop takes chunks one by one, and stops because enough is held, the ring is
full, or the budget refuses. -/
lemma reserveLoop_spec (cap : Nat) (k : Int) (grants chunks : Nat) (held : Int) :
    ∃ j : Nat, reserveLoop cap k grants chunks held = (chunks + j, held + j * chunkSize) ∧
      (chunks ≤ cap → chunks + j ≤ cap) ∧
      (k ≤ held + j * chunkSize ∨ cap ≤ chunks + j ∨ j = grants) := by
  induction grants generalizing chunks held with
  | zero => exact ⟨0, by simp [reserveLoop], by simp, .inr (.inr rfl)⟩
  | succ grants ih =>
    rw [reserveLoop]
    by_cases hc : held < k ∧ chunks < cap
    · rw [if_pos hc]
      obtain ⟨j, heq, hcap, hstop⟩ := ih (chunks + 1) (held + chunkSize)
      have hbytes : held + chunkSize + j * chunkSize = held + ((j + 1 : Nat) : Int) * chunkSize := by
        push_cast
        ring
      refine ⟨j + 1, ?_, fun _ => ?_, ?_⟩
      · rw [heq, hbytes]
        exact Prod.ext (by simp only; omega) rfl
      · have := hcap (by omega)
        omega
      rw [← hbytes]
      rcases hstop with h | h | h
      · exact .inl h
      · exact .inr (.inl (by omega))
      · exact .inr (.inr (by omega))
    rw [if_neg hc]
    refine ⟨0, by simp, by simp, ?_⟩
    by_cases hk : held < k
    · exact .inr (.inl (by simpa using fun h => hc ⟨hk, h⟩))
    · exact .inl (by simpa using hk)

/-- What a reservation takes: `j` chunks, and as many of the `k` bytes as they cover. -/
lemma reserveChunks_spec (p : Params) (grants : Nat) (k : Int) (t : Tx) :
    ∃ j : Nat, reserveChunks p grants k t =
        (min k ((t.cbase : Int) + (t.chunks + j : Nat) * chunkSize - t.resEnd),
          { t with chunks := t.chunks + j }) ∧
      (t.chunks ≤ p.ringCap → t.chunks + j ≤ p.ringCap) ∧
      (k ≤ (t.cbase : Int) + (t.chunks + j : Nat) * chunkSize - t.resEnd ∨
        p.ringCap ≤ t.chunks + j ∨ j = grants) := by
  obtain ⟨j, heq, hcap, hstop⟩ := reserveLoop_spec p.ringCap k grants t.chunks
    (t.cbase + t.chunks * chunkSize - t.resEnd)
  have hbytes : (t.cbase : Int) + t.chunks * chunkSize - t.resEnd + j * chunkSize =
      t.cbase + (t.chunks + j : Nat) * chunkSize - t.resEnd := by
    push_cast
    ring
  rw [hbytes] at heq hstop
  refine ⟨j, ?_, hcap, hstop⟩
  unfold reserveChunks
  unfold Params.ringCap at heq
  simp only
  rw [heq]

variable {p : Params}

/-- A full ring is larger than the window and the part of the first chunk before the front. -/
lemma ChunkInv.full {c : ChunkPart} (h : ChunkInv p c) {n : Nat}
    (hn : p.ringCap ≤ n) : (c.sBase : Int) + p.window ≤ c.cbase + n * chunkSize := by
  have hpos := p.window_pos
  have hwin : p.window.toNat < (p.window.toNat / chunkSize + 1) * chunkSize := by
    have hdiv := Nat.div_add_mod p.window.toNat chunkSize
    have hmod := Nat.mod_lt p.window.toNat (show 0 < chunkSize by decide)
    rw [Nat.add_mul, Nat.mul_comm (p.window.toNat / chunkSize)]
    omega
  have hbytes : c.sBase + p.window.toNat ≤ c.cbase + n * chunkSize := by
    calc c.sBase + p.window.toNat
        ≤ c.cbase + chunkSize + (p.window.toNat / chunkSize + 1) * chunkSize := by
          have := h.near
          omega
      _ = c.cbase + (p.window.toNat / chunkSize + 2) * chunkSize := by ring
      _ ≤ c.cbase + n * chunkSize := Nat.add_le_add_left (Nat.mul_le_mul_right _ hn) _
  have hcast : (p.window.toNat : Int) = p.window := Int.toNat_of_nonneg (by omega)
  rw [← hcast]
  exact_mod_cast hbytes

variable {s : Session}

/-- **Within the window the ring is never too small**: a reservation stops short only when the
budget refuses a chunk. -/
lemma reserveChunks_done (h : ChunkInv p s.chunkPart) (grants : Nat) {k : Int}
    (hk : k ≤ s.sendRoom p) :
    (reserveChunks p grants k s.tx).1 = k ∨
      (reserveChunks p grants k s.tx).2.chunks = s.tx.chunks + grants := by
  obtain ⟨j, heq, -, hstop⟩ := reserveChunks_spec p grants k s.tx
  rw [heq]
  rcases hstop with hheld | hfull | hj
  · exact .inl (min_eq_left hheld)
  · have hroom : k ≤ p.window - ((s.tx.resEnd : Int) - s.tx.sBase) := hk
    have hbytes : (s.tx.sBase : Int) + p.window ≤
        s.tx.cbase + (s.tx.chunks + j : Nat) * chunkSize := h.full hfull
    exact .inl (min_eq_left (by linarith))
  · exact .inr (by rw [hj])

/-- A Write's round is covered by the chunks it reserved. -/
lemma ChunkInv.writeRound (h : ChunkInv p s.chunkPart) (bs : List Byte)
    (deadline : Bool) (grants : Nat) :
    ChunkInv p (s.writeRound p bs deadline grants).1.chunkPart := by
  unfold Session.writeRound
  split
  · exact h
  rename_i hfree
  have hround : s.tx.wround = none := by
    cases hw : s.tx.wround with
    | none => rfl
    | some _ => exact absurd (.inl (by rw [hw]; rfl)) hfree
  repeat' (first | (split; exact h))
  dsimp only
  split
  · split
    · exact h
    obtain ⟨j, heq, hcap, -⟩ := reserveChunks_spec p grants
      (min (min (bs.length : Int) (s.earlyCap p (s.sendRoom p))) maxRound) s.tx
    rw [heq]
    generalize hk : min (min (bs.length : Int) (s.earlyCap p (s.sendRoom p))) maxRound = k
    generalize hr : min k ((s.tx.cbase : Int) + (s.tx.chunks + j : Nat) * chunkSize -
      s.tx.resEnd) = r
    have hrk : r ≤ k := by rw [← hr]; exact min_le_left _ _
    have hrc : r ≤ (s.tx.cbase : Int) + (s.tx.chunks + j : Nat) * chunkSize - s.tx.resEnd := by
      rw [← hr]; exact min_le_right _ _
    have hkb : k ≤ bs.length := by
      rw [← hk]
      exact (min_le_left _ _).trans (min_le_left _ _)
    have hend : s.tx.endOff + 0 = s.tx.resEnd := by
      have := h.round
      simp only [chunkPart, Tx.chunkPart, hround] at this
      exact this
    split
    · exact
        { base := h.base
          near := h.near
          front := h.front
          round := by
            show s.tx.endOff + (bs.take r.toNat).length = s.tx.resEnd + r.toNat
            rw [length_take]
            omega
          cover := fun _ => by
            show s.tx.resEnd + r.toNat ≤ s.tx.cbase + (s.tx.chunks + j) * chunkSize
            zify
            push_cast at hrc
            rw [Int.toNat_of_nonneg (by omega)]
            linarith
          cap := hcap h.cap }
    exact
      { base := h.base, near := h.near, front := h.front, round := h.round
        cover := fun hlt => by
          have := h.cover hlt
          show s.tx.resEnd ≤ s.tx.cbase + (s.tx.chunks + j) * chunkSize
          have hle : s.tx.chunks * chunkSize ≤ (s.tx.chunks + j) * chunkSize :=
            Nat.mul_le_mul_right _ (Nat.le_add_right _ _)
          simp only [chunkPart, Tx.chunkPart] at this
          omega
        cap := hcap h.cap }
  · exact h

/-- A copied round is committed. -/
lemma ChunkInv.commitRound (h : ChunkInv p s.chunkPart) (he : s.rx.ended = false) :
    ChunkInv p s.commitRound.chunkPart := by
  unfold Session.commitRound
  split
  · exact h
  rename_i bs hw
  rw [if_neg (by simp [he])]
  have hround := h.round
  simp only [chunkPart, Tx.chunkPart, hw, Option.getD_some] at hround
  exact
    { base := h.base, near := h.near
      front := le_trans h.front (Nat.le_add_right _ _)
      round := hround
      cover := h.cover, cap := h.cap }

/-! ### Acknowledging -/

/-- The chunks below the front leave. -/
lemma releaseChunks_spec (front n cbase : Nat) (hb : cbase ≤ front) :
    ∃ j ≤ n, releaseChunks front n cbase = (n - j, cbase + j * chunkSize) ∧
      cbase + j * chunkSize ≤ front ∧ (j < n → front < cbase + j * chunkSize + chunkSize) := by
  induction n generalizing cbase with
  | zero => exact ⟨0, le_rfl, by simp [releaseChunks], by simpa using hb, by simp⟩
  | succ n ih =>
    rw [releaseChunks]
    by_cases hc : cbase + chunkSize ≤ front
    · rw [if_pos hc]
      obtain ⟨j, hj, heq, hle, hlast⟩ := ih (cbase + chunkSize) hc
      have hbytes : cbase + chunkSize + j * chunkSize = cbase + (j + 1) * chunkSize := by ring
      rw [hbytes] at heq hle hlast
      refine ⟨j + 1, by omega, ?_, hle, fun h => hlast (by omega)⟩
      rw [heq]
      exact Prod.ext (by simp only; omega) rfl
    · rw [if_neg hc]
      exact ⟨0, by omega, by simp, by simpa using hb, fun _ => by omega⟩

/-- **The front advances**: what stays held still covers what is not acknowledged, and the base is
within a chunk of the front. -/
lemma ChunkInv.advance (h : ChunkInv p s.chunkPart) {front : Nat}
    (h1 : s.tx.sBase ≤ front) (h2 : front ≤ s.tx.endOff) :
    ChunkInv p (s.advanceSend front).chunkPart := by
  have hbase : s.tx.cbase ≤ s.tx.sBase := h.base
  have hcap : s.tx.chunks ≤ p.ringCap := h.cap
  have hround : s.tx.endOff + (s.tx.wround.getD []).length = s.tx.resEnd := h.round
  obtain ⟨j, hj, heq, hle, hlast⟩ := releaseChunks_spec front s.tx.chunks s.tx.cbase (by omega)
  have hpart : (s.advanceSend front).chunkPart =
      ⟨if front = s.tx.resEnd then front / chunkSize * chunkSize else s.tx.cbase + j * chunkSize,
        if front = s.tx.resEnd then 0 else s.tx.chunks - j, front, s.tx.endOff, s.tx.resEnd,
        s.tx.wround⟩ := by
    unfold advanceSend
    simp only [chunkPart, Tx.chunkPart, heq]
  rw [hpart]
  by_cases hall : front = s.tx.resEnd
  · -- Everything reserved is acknowledged: the ring is empty and its base is rounded down.
    have hdiv := Nat.div_add_mod front chunkSize
    have hmod := Nat.mod_lt front (show 0 < chunkSize by decide)
    rw [Nat.mul_comm] at hdiv
    simp only [if_pos hall]
    exact
      { base := by simp only; omega
        near := by simp only; omega
        front := h2
        round := hround
        cover := fun hlt => absurd hlt (by simp only; omega)
        cap := Nat.zero_le _ }
  simp only [if_neg hall]
  -- The reserved end lies beyond the front, so a chunk is left.
  have hcover : s.tx.resEnd ≤ s.tx.cbase + s.tx.chunks * chunkSize :=
    h.cover (by simp only [chunkPart, Tx.chunkPart]; omega)
  have hsplit : s.tx.chunks * chunkSize = j * chunkSize + (s.tx.chunks - j) * chunkSize := by
    rw [← Nat.add_mul]
    congr 1
    omega
  have hleft : j < s.tx.chunks := by
    by_contra hc
    have : s.tx.chunks - j = 0 := by omega
    rw [this] at hsplit
    omega
  exact
    { base := hle
      near := hlast hleft
      front := h2
      round := hround
      cover := fun _ => by simp only; omega
      cap := by simp only; omega }

/-! ### Every event -/

namespace Session

variable {p : Params}

lemma close_chunkPart (s : Session) : (s.close p).chunkPart = s.chunkPart := by
  unfold close
  split
  · rfl
  · exact congrArg Prod.snd s.closeWrite_kept

lemma confirm_chunkPart (used max : Int) (down : List LaneId) (s : Session) :
    (s.confirm p used max down).chunkPart = s.chunkPart := by
  by_cases hc : s.phase ≠ .pending ∨ p.role ≠ .passive ∨ s.rx.ended = true
  · unfold confirm
    rw [if_pos hc]
  · exact (congrArg Prod.snd (confirm_kept used max down hc)).trans
      (openWindow_still used max _).ring

section

variable (h : ChunkInv p s.chunkPart)
include h

/-- A JOIN's offset is applied. -/
lemma applyRxNext_chunks (hi : s.rx.ended = false → SendInv p s.sendPart) (rx : Nat) :
    ChunkInv p (s.applyRxNext rx).1.chunkPart := by
  unfold applyRxNext
  split
  · exact h
  rename_i hle
  split
  next hc =>
    have hnext : s.tx.sNext ≤ s.tx.endOff := (hi hc.2).next_le
    exact h.advance (by omega) (by omega)
  · exact h

lemma ack_chunks (hi : SendInv p s.sendPart) (l : LaneId) (fd dn : Bool) (d w : Nat) :
    ChunkInv p (s.ack l fd dn d w).1.chunkPart := by
  set heard := s.setLane l fun ln => { ln with lastAck := d }
  have hdone : ∀ t : Session, t.maybeDone.chunkPart = t.chunkPart := fun t => by
    unfold maybeDone
    split <;> rfl
  unfold ack
  split
  · exact h
  rename_i hle
  split
  · exact h
  split
  · exact h
  dsimp only
  have hnext : s.tx.sNext ≤ s.tx.endOff := hi.next_le
  -- Behind the advance nothing touches the ring.
  have hadv : ChunkInv p (if heard.tx.sBase < d then
      heard.advanceSend d
    else s.setLane l fun ln => { ln with lastAck := d }).chunkPart := by
    split
    next hlt =>
      exact ChunkInv.advance (s := s.setLane l fun ln => { ln with lastAck := d }) h
        (le_of_lt hlt) (show d ≤ s.tx.endOff by omega)
    · exact h
  generalize (if heard.tx.sBase < d then
      heard.advanceSend d
    else s.setLane l fun ln => { ln with lastAck := d }) = t at hadv
  have hpeer : ∀ t' : Session, (if dn then { t' with peerDone := true } else t').chunkPart =
      t'.chunkPart := fun t' => by
    split <;> rfl
  rw [hpeer]
  split
  · rw [hdone]
    split <;> exact hadv
  · exact hadv

lemma recv_chunks (hi : s.rx.ended = false → SendInv p s.sendPart) (l : LaneId) (f : Frame)
    (buf : Option Nat) : ChunkInv p (s.recv p l f buf).1.chunkPart := by
  cases f with
  | data off bs =>
    unfold recv
    dsimp only
    split <;> exact h
  | ack fd dn d w =>
    unfold recv
    dsimp only
    split
    · exact h
    rename_i he
    split
    · exact h
    · exact ack_chunks h (hi (Bool.eq_false_iff.mpr he)) l fd dn d w
  | _ =>
    unfold recv
    dsimp only
    repeat' split
    all_goals exact h

/-- **Every event keeps the invariant of the ring**, unless the session has ended. -/
lemma step_chunks (he : s.rx.ended = false) (hi : SendInv p s.sendPart) {ev : Ev}
    (hev : ev ≠ .finish) : ChunkInv p (s.step p ev).1.chunkPart := by
  have same : ∀ {s' : Session}, s'.chunkPart = s.chunkPart → ChunkInv p s'.chunkPart :=
    fun heq => by rw [heq]; exact h
  have still : ∀ {s' : Session}, Still p s s' → ChunkInv p s'.chunkPart := fun hs => same hs.ring
  cases ev with
  | write bs deadline grants => exact h.writeRound bs deadline grants
  | commit => exact h.commitRound he
  | closeWrite => exact still (.of_eq s.closeWrite_kept)
  | close => exact same s.close_chunkPart
  | readView len deadline | readCommit => exact h
  | fill l i => exact still (fill_still l i s)
  | recv l f buf =>
    simp only [step]
    split
    · exact recv_chunks h (fun _ => hi) l f buf
    · exact h
  | dial used max =>
    simp only [step]
    split
    · exact same (openWindow_still used max s).ring
    · exact h
  | attempt =>
    simp only [step]
    split
    · exact still (.of_eq (s.earlySpan_kept p))
    · exact h
  | openOK l window early a =>
    simp only [step]
    split
    · exact still (openOK_still l window early a s)
    · exact h
  | joinOK l rxNext a =>
    have happ := applyRxNext_chunks h (fun _ => hi) rxNext
    simp only [step]
    split
    · unfold joinOK
      split
      · exact h
      split <;> rename_i heq <;> rw [heq] at happ
      · exact happ
      · rw [(attach_still l a _).ring]
        exact happ
    · exact h
  | recvOpen l early window =>
    simp only [step]
    split
    · exact still (recvOpen_still l early window s)
    · exact h
  | recvJoin l rxNext =>
    have happ := applyRxNext_chunks h (fun _ => hi) rxNext
    simp only [step]
    split
    · unfold recvJoin
      split
      · exact h
      split <;> rename_i heq <;> rw [heq] at happ
      · exact happ
      · exact happ
    · exact h
  | confirm used max down => exact same (s.confirm_chunkPart used max down)
  | adopt l used max =>
    simp only [step]
    split
    · exact still (adopt_still l used max s)
    · exact h
  | rescue => exact still (.of_eq (s.rescue_kept p))
  | bump | refreshOrder o =>
    simp only [step]
    split <;> exact h
  | laneDied l r => exact still (laneDied_still l r s)
  | peerClosed l r => exact still (.of_eq (s.peerClosed_kept p l r))
  | retire l =>
    simp only [step]
    split
    · exact still (.of_eq (s.retireLane_kept p l))
    · exact h
  | switch l =>
    simp only [step]
    split
    · exact still (.of_eq (s.qualitySwitch_kept p l))
    · exact h
  | lost r =>
    simp only [step]
    split
    · exact still (.of_eq (s.lostActive_kept p r))
    · exact h
  | route r =>
    simp only [step]
    split
    · exact still (.of_eq (s.passiveRoute_kept p r))
    · exact h
  | finish => exact absurd rfl hev

end

end Session

/-! ### What a Fill reads -/

namespace Pull

/-- The read of `addData`: none when the batch has no room for the frame, else the bytes of the
frame, also when the batch then refuses it. -/
def addReads (p : Params) (off n : Nat) (st : Pull) : List (Nat × Nat) :=
  let n := min (min n (st.s.tx.chunkEnd off - off)) p.segment
  let room := st.b.room.toNat
  if room < n ∧ (st.sent = true ∨ room = 0) then [] else [(off, min n room)]

/-- The reads of a Fill loop. -/
def reads (p : Params) (l : LaneId) (q : Loop) : Nat → Pull → List (Nat × Nat)
  | 0, _ => []
  | fuel + 1, st =>
    if q.live st then
      let st := { st with s := q.prep st.s }
      let r := st.addData p l (q.next st.s).1 (q.next st.s).2
      st.addReads p (q.next st.s).1 (q.next st.s).2 ++
        if r.1 = 0 then [] else reads p l q fuel { r.2 with s := q.took r.1 r.2.s }
    else []

def fillRescueReads (p : Params) (l : LaneId) (st : Pull) : List (Nat × Nat) :=
  if st.s.tx.rescue.set = true ∧ 0 < st.left ∧ st.s.rescueSender l = true then
    reads p l rescueLoop maxBatchFrames st
  else []

/-- The reads of `fillData`: the rescue duplicate, retransmissions, then new bytes. -/
def fillDataReads (p : Params) (l : LaneId) (st : Pull) : List (Nat × Nat) :=
  let st := { st with s := st.s.withTx fun t =>
    { t with interleaved := if t.sBase = t.sNext then false else t.interleaved } }
  let st1 := st.fillRescue p l
  let st2 := pullLoop p l retxLoop maxBatchFrames st1
  st.fillRescueReads p l ++ reads p l retxLoop maxBatchFrames st1 ++
    reads p l newLoop maxBatchFrames st2

/-- The reads of `raceFillData`, from the lane's cursor. -/
def raceFillDataReads (p : Params) (l : LaneId) (st : Pull) : List (Nat × Nat) :=
  let st := { st with s := st.s.setLane l fun ln => { ln with rnext := max ln.rnext st.s.tx.sBase } }
  reads p l (raceLoop l) maxBatchFrames st

end Pull

namespace Session

/-- The reads of a Fill on a lane that owes no go frame. -/
def laneReads (p : Params) (l : LaneId) (i : FillIn) (s : Session) (b : Batch) : List (Nat × Nat) :=
  if (s.lanes l).state = .dead then []
  else
    let r := s.fillControl p l i b
    if r.1 = true ∧ (r.2.1.lanes l).data = true then
      let st : Pull := ⟨r.2.1, r.2.2, i.left, false⟩
      if i.b.ctlOnly then []
      else if p.mode = .race then st.raceFillDataReads p l
      else st.fillDataReads p l
    else []

/-- The chunk reads of a `Fill`. -/
def fillReads (p : Params) (l : LaneId) (i : FillIn) (s : Session) : List (Nat × Nat) :=
  if i.held then []
  else if (s.lanes l).goOwed then
    if (s.lanes l).state = .dead ∨ s.rx.ended = true then []
    else
      match s.placeGo { i.b with out := [] } with
      | (false, _) => []
      | (true, b) => (s.setLane l fun ln => { ln with goOwed := false }).laneReads p l i b
  else s.laneReads p l i { i.b with out := [] }

/-- The chunk reads of the copy of an early span of `k` bytes: one chunk, or two. -/
def earlyReads (p : Params) (s : Session) : List (Nat × Nat) :=
  match s.early with
  | some _ => []
  | none =>
    let k := if p.earlyReturn = true ∧ p.firstOffset = 0 then
        min (s.tx.endOff - p.firstOffset) p.earlyMax
      else 0
    if 0 < k then
      let first := chunkSize - (s.tx.chunkFor p.firstOffset).2
      (p.firstOffset, min k first) :: if first < k then [(p.firstOffset + first, k - first)] else []
    else []

end Session

namespace Pull

variable {p : Params} {l : LaneId} {q : Loop} {st : Pull}

/-- The invariant rule for the reads of a Fill loop. -/
lemma reads_inv (Inv : Pull → Prop) (Good : Nat → Nat → Prop)
    (hnext : ∀ st, Inv st → q.live st = true → 0 < (q.next (q.prep st.s)).2)
    (hstep : ∀ st k st', Inv st → q.live st = true → Places p l q st k st' →
      Inv { st' with s := q.took k st'.s })
    (hread : ∀ st, Inv st → q.live st = true → ∀ n,
      n ≤ (q.prep st.s).tx.chunkEnd (q.next (q.prep st.s)).1 - (q.next (q.prep st.s)).1 →
        Good (q.next (q.prep st.s)).1 n)
    (fuel : Nat) (h : Inv st) : ∀ r ∈ reads p l q fuel st, Good r.1 r.2 := by
  induction fuel generalizing st with
  | zero => intro r hr; cases hr
  | succ fuel ih =>
    intro r hr
    rw [reads] at hr
    by_cases hl : q.live st = true
    · rw [if_pos hl] at hr
      rcases mem_append.mp hr with hr | hr
      · unfold addReads at hr
        dsimp only at hr
        split at hr
        · cases hr
        · rw [mem_singleton.mp hr]
          exact hread st h hl _ (by dsimp only; omega)
      rcases places_cases p l (hnext st h hl) with hc | ⟨hc, hplaced⟩
      · rw [if_pos (by rw [hc])] at hr
        cases hr
      · rw [if_neg hc] at hr
        exact ih (hstep st _ _ h hl hplaced) r hr
    · rw [if_neg hl] at hr
      cases hr

/-- What the loops of a Fill know about where they read: everything they send lies between the
front and the committed end, and the ring covers that. -/
structure Fed (t : Tx) (st : Pull) : Prop where
  part : st.s.chunkPart = t.chunkPart
  next : t.sBase ≤ st.s.tx.sNext
  queue : ∀ x ∈ st.s.tx.retx, t.sBase ≤ x ∧ x < t.endOff
  rescue : st.s.tx.rescue.set = true → t.sBase ≤ st.s.tx.rescue.sp.off ∧
    st.s.tx.rescue.sp.endOff ≤ t.endOff

lemma Fed.endOff {t : Tx} (h : Fed t st) : st.s.tx.endOff = t.endOff :=
  congrArg ChunkPart.endOff h.part

/-- A read between the front and the committed end is held. -/
lemma Fed.holds {t : Tx} (h : Fed t st) (hi : ChunkInv p t.chunkPart) {off n : Nat}
    (h1 : t.sBase ≤ off) (h2 : off < t.endOff) (h3 : n ≤ st.s.tx.chunkEnd off - off) :
    t.Holds off n := by
  have hb : t.cbase ≤ t.sBase := hi.base
  have hr : t.endOff + (t.wround.getD []).length = t.resEnd := hi.round
  have hc : t.sBase < t.resEnd → t.resEnd ≤ t.cbase + t.chunks * chunkSize := hi.cover
  have hcb : st.s.tx.cbase = t.cbase := congrArg ChunkPart.cbase h.part
  refine Tx.Holds.of_range (by omega) (by have := hc (by omega); omega) ?_
  unfold Tx.chunkEnd at h3 ⊢
  rwa [hcb] at h3

variable {t : Tx}

/-- A placement changes the lane only. -/
lemma Fed.placed {off n k : Nat} {st st' : Pull} (h : Fed t st) (hp : Placed p l off n st k st') :
    Fed t st' ∧ st'.s.tx = st.s.tx := by
  have htx : st'.s.tx = st.s.tx := by
    rw [hp.s_eq]
    rfl
  refine ⟨⟨?_, ?_, ?_, ?_⟩, htx⟩
  · exact (congrArg Tx.chunkPart htx).trans h.part
  · rw [htx]
    exact h.next
  · rw [htx]
    exact h.queue
  · rw [htx]
    exact h.rescue

variable {st' : Pull}

lemma rescueLoop_fed {k : Nat} (h : Fed t st ∧ st.s.tx.rescue.set = true)
    (hp : Places p l rescueLoop st k st') :
    Fed t { st' with s := rescueLoop.took k st'.s } ∧
      (rescueLoop.took k st'.s).tx.rescue.set = true := by
  have hp : Placed p l st.s.tx.rescue.sp.off st.s.tx.rescue.sp.n st k st' := hp
  obtain ⟨hf, htx⟩ := h.1.placed hp
  have hset : st'.s.tx.rescue.set = true := by
    rw [htx]
    exact h.2
  refine ⟨{ hf with rescue := fun _ => ?_ }, hset⟩
  have hr := hf.rescue hset
  have hle := hp.le
  rw [← htx] at hle
  unfold Span.endOff at hr
  show t.sBase ≤ st'.s.tx.rescue.sp.off + k ∧
    st'.s.tx.rescue.sp.off + k + (st'.s.tx.rescue.sp.n - k) ≤ t.endOff
  omega

lemma retxLoop_fed {k : Nat} (h : Fed t st) (hlive : retxLoop.live st = true)
    (hp : Places p l retxLoop st k st') : Fed t { st' with s := retxLoop.took k st'.s } := by
  obtain ⟨sp, ts, hcons, hnext⟩ := retxLoop_head hlive
  unfold Places at hp
  rw [hnext] at hp
  have hp : Placed p l sp.off sp.n st k st' := hp
  obtain ⟨hf, htx⟩ := h.placed hp
  have hcons' : st'.s.tx.retx.s = sp :: ts := by rw [htx]; exact hcons
  exact { hf with queue := fun x hx => hf.queue x ((SpanList.mem_takeFront hcons' hp.le).mp hx).1 }

lemma newLoop_fed {k : Nat} (h : Fed t st) (hp : Places p l newLoop st k st') :
    Fed t { st' with s := newLoop.took k st'.s } := by
  have h' : Fed t { st with s := newLoop.prep st.s } := h
  obtain ⟨hf, -⟩ := h'.placed hp
  exact { hf with next := le_trans hf.next (Nat.le_add_right _ _) }

/-- The reads of the rescue duplicate are held. -/
lemma fillRescue_reads (hi : ChunkInv p t.chunkPart) (h : Fed t st) :
    (∀ r ∈ st.fillRescueReads p l, t.Holds r.1 r.2) ∧ Fed t (st.fillRescue p l) := by
  unfold fillRescueReads fillRescue
  split
  next hc =>
    have hloop := pullLoop_inv (p := p) (l := l) (q := rescueLoop)
      (fun st => Fed t st ∧ st.s.tx.rescue.set = true) (fun st _ => rescueLoop_next st)
      (fun _ h _ => h) (fun _ _ _ h _ hp => rescueLoop_fed h hp) maxBatchFrames ⟨h, hc.1⟩
    refine ⟨reads_inv (fun st => Fed t st ∧ st.s.tx.rescue.set = true) t.Holds
      (fun st _ => rescueLoop_next st) (fun _ _ _ h _ hp => rescueLoop_fed h hp)
      (fun st h hlive n hn => ?_) maxBatchFrames ⟨h, hc.1⟩, ?_⟩
    · have hr := h.1.rescue h.2
      have hpos : 0 < st.s.tx.rescue.sp.n := rescueLoop_next st hlive
      unfold Span.endOff at hr
      exact h.1.holds hi hr.1 (show st.s.tx.rescue.sp.off < t.endOff by omega) hn
    dsimp only
    split
    · exact hloop.1
    · refine { hloop.1 with rescue := fun hs => ?_ }
      simp only [withTx_tx] at hs
      split at hs <;> cases hs
  · exact ⟨fun r hr => (by cases hr), h⟩

/-- **The reads of a selector or bond Fill are held.** -/
lemma fillData_reads (hi : ChunkInv p t.chunkPart) (h : Fed t st) :
    ∀ r ∈ st.fillDataReads p l, t.Holds r.1 r.2 := by
  intro r hr
  unfold fillDataReads at hr
  dsimp only at hr
  generalize hst : ({ st with s := st.s.withTx fun t =>
    { t with interleaved := if t.sBase = t.sNext then false else t.interleaved } } : Pull) = st0
    at hr
  have h0 : Fed t st0 := by
    rw [← hst]
    exact { h with }
  obtain ⟨hres, h1⟩ := fillRescue_reads (p := p) (l := l) hi h0
  have h2 : Fed t (pullLoop p l retxLoop maxBatchFrames (st0.fillRescue p l)) :=
    pullLoop_inv (Fed t) (fun st _ => retxLoop_next st) (fun _ h _ => h)
      (fun _ _ _ h hlive hp => retxLoop_fed h hlive hp) maxBatchFrames h1
  rcases mem_append.mp hr with hr | hr
  · rcases mem_append.mp hr with hr | hr
    · exact hres r hr
    refine reads_inv (Fed t) t.Holds (fun st _ => retxLoop_next st)
      (fun _ _ _ h hlive hp => retxLoop_fed h hlive hp) (fun st h hlive n hn => ?_)
      maxBatchFrames h1 r hr
    obtain ⟨sp, ts, hcons, hnext⟩ := retxLoop_head hlive
    rw [hnext] at hn ⊢
    -- The head of the queue is a queued offset.
    have hw := st.s.tx.retx.wf
    rw [hcons] at hw
    have hq := h.queue sp.off (SpanList.mem_head hcons le_rfl
      (by have := hw.2.1; unfold Span.endOff; omega))
    exact h.holds hi hq.1 hq.2 hn
  refine reads_inv (Fed t) t.Holds (fun st _ => newLoop_next st)
    (fun _ _ _ h _ hp => newLoop_fed h hp) (fun st h hlive n hn => ?_) maxBatchFrames h2 r hr
  simp only [newLoop, Bool.and_eq_true, decide_eq_true_eq] at hlive
  exact h.holds hi h.next (by have := h.endOff; simp only [newLoop]; omega) hn

/-- **The reads of a race Fill are held.** -/
lemma raceFillData_reads (hi : ChunkInv p t.chunkPart) (h : Fed t st) :
    ∀ r ∈ st.raceFillDataReads p l, t.Holds r.1 r.2 := by
  have hbase : st.s.tx.sBase = t.sBase := congrArg ChunkPart.sBase h.part
  refine reads_inv (fun st => Fed t st ∧ t.sBase ≤ (st.s.lanes l).rnext) t.Holds
    (fun st _ => raceLoop_next l st) (fun st k st' h hlive hp => ?_) (fun st h hlive n hn => ?_)
    maxBatchFrames ⟨{ h with }, ?_⟩
  · -- The queue shrinks and the cursor moves up.
    have hprep : Fed t { st with s := (raceLoop l).prep st.s } :=
      { h.1 with queue := fun x hx => h.1.queue x (SpanList.mem_trimBelow.mp hx).1 }
    obtain ⟨hf, -⟩ := hprep.placed hp
    have hcur : t.sBase ≤ (st'.s.lanes l).rnext := by
      rw [hp.s_eq, setLane_self]
      exact h.2
    simp only [raceLoop]
    split
    · exact ⟨{ hf with queue := fun x hx => hf.queue x (SpanList.mem_trimBelow.mp hx).1 },
        by simp only [withTx_lanes, setLane_self]; omega⟩
    · exact ⟨{ hf with }, by simp only [setLane_self]; omega⟩
  · simp only [raceLoop, Bool.and_eq_true, decide_eq_true_eq] at hlive
    have hend := h.1.endOff
    exact h.1.holds hi h.2 (show (st.s.lanes l).rnext < t.endOff by omega) hn
  · simp only [setLane_self]
    omega

end Pull

namespace Session

variable {p : Params}

lemma laneReads_held (hi : ChunkInv p s.chunkPart)
    (hs : s.rx.ended = false → SendInv p s.sendPart) (l : LaneId) (i : FillIn) (b : Batch) :
    ∀ r ∈ s.laneReads p l i b, s.tx.Holds r.1 r.2 := by
  intro r hr
  unfold laneReads at hr
  split at hr
  · cases hr
  dsimp only at hr
  split at hr
  next hc =>
    have htx : (s.fillControl p l i b).2.1.tx = s.tx := s.fillControl_tx l i b
    have hinv := hs (s.fillControl_ended l i b hc.1)
    have hfed : Pull.Fed s.tx ⟨(s.fillControl p l i b).2.1, (s.fillControl p l i b).2.2, i.left,
        false⟩ := by
      refine ⟨congrArg Tx.chunkPart htx, ?_, fun x hx => ?_, fun hset => ?_⟩
      · rw [htx]
        exact hinv.base_le
      · simp only [htx] at hx
        exact ⟨(hinv.retx_range x hx).1, lt_of_lt_of_le (hinv.retx_range x hx).2 hinv.next_le⟩
      · simp only [htx] at hset ⊢
        exact ⟨(hinv.rescue_range hset).1, le_trans (hinv.rescue_range hset).2 hinv.next_le⟩
    split at hr
    · cases hr
    split at hr
    · exact Pull.raceFillData_reads hi hfed r hr
    · exact Pull.fillData_reads hi hfed r hr
  · cases hr

/-- **Every read of a Fill is held**: it addresses a chunk of the ring and stays inside it. -/
lemma fill_reads_held (hi : ChunkInv p s.chunkPart)
    (hs : s.rx.ended = false → SendInv p s.sendPart) (l : LaneId) (i : FillIn) :
    ∀ r ∈ s.fillReads p l i, s.tx.Holds r.1 r.2 := by
  intro r hr
  unfold fillReads at hr
  split at hr
  · cases hr
  split at hr
  · split at hr
    · cases hr
    split at hr
    · cases hr
    have hpart : (s.setLane l fun ln => { ln with goOwed := false }).sendPart = s.sendPart :=
      setLane_sendPart s l fun _ => rfl
    refine laneReads_held (s := s.setLane l fun ln => { ln with goOwed := false }) hi ?_ l i _ r hr
    rw [hpart]
    exact hs
  · exact laneReads_held hi hs l i _ r hr

/-- The copy of the early span reads held chunks. -/
lemma early_reads_held (hi : ChunkInv p s.chunkPart) (hbase : s.tx.sBase = p.firstOffset) :
    ∀ r ∈ s.earlyReads p, s.tx.Holds r.1 r.2 := by
  intro r hr
  have hb : s.tx.cbase ≤ s.tx.sBase := hi.base
  have hrd : s.tx.endOff + (s.tx.wround.getD []).length = s.tx.resEnd := hi.round
  have hc : s.tx.sBase < s.tx.resEnd → s.tx.resEnd ≤ s.tx.cbase + s.tx.chunks * chunkSize :=
    hi.cover
  have hpos : 0 < chunkSize := by decide
  unfold earlyReads at hr
  split at hr
  · cases hr
  dsimp only at hr
  generalize hkk : (if p.earlyReturn = true ∧ p.firstOffset = 0 then
    min (s.tx.endOff - p.firstOffset) p.earlyMax else 0) = k at hr
  split at hr
  next hk =>
    have hke : k ≤ s.tx.endOff - p.firstOffset ∧ k ≤ chunkSize := by
      have hmax : p.earlyMax ≤ chunkSize := p.earlyMax_le
      rw [← hkk]
      split <;> omega
    have hmod := Nat.mod_lt (p.firstOffset - s.tx.cbase) hpos
    have hdiv := Nat.div_add_mod (p.firstOffset - s.tx.cbase) chunkSize
    generalize hpp : (s.tx.chunkFor p.firstOffset).2 = pos at hr
    have hpp : (p.firstOffset - s.tx.cbase) % chunkSize = pos := hpp
    rw [hpp] at hmod hdiv
    rcases mem_cons.mp hr with rfl | hr
    · refine Tx.Holds.of_range (by omega) (by have := hc (by omega); omega) ?_
      unfold Tx.chunkEnd
      rw [hpp]
      omega
    split at hr
    · -- The rest of the span starts the next chunk.
      rw [mem_singleton.mp hr]
      refine Tx.Holds.of_range (by dsimp only; omega)
        (by have := hc (by omega); dsimp only; omega) ?_
      have hnext : (p.firstOffset + (chunkSize - pos) - s.tx.cbase) % chunkSize = 0 := by
        have heq : p.firstOffset + (chunkSize - pos) - s.tx.cbase =
            chunkSize * ((p.firstOffset - s.tx.cbase) / chunkSize + 1) := by
          rw [Nat.mul_add, Nat.mul_one]
          omega
        rw [heq, Nat.mul_mod_right]
      unfold Tx.chunkEnd
      rw [hnext]
      omega
    · cases hr
  · cases hr

end Session

/-! ### Every run -/

/-- The ring's invariant holds in every state that has not ended. -/
lemma ChunkInv.after (p : Params) (evs : List Ev) :
    (Session.after p evs).rx.ended = true ∨ ChunkInv p (Session.after p evs).chunkPart := by
  refine (runFrom_inv (fun s : Session => s.rx.Wf ∧ Opening p s.sendPart ∧
    (s.rx.ended = true ∨ SendInv p s.sendPart) ∧ (s.rx.ended = true ∨ ChunkInv p s.chunkPart))
    ⟨Rx.init_wf p _, .init p, .inr (SendInv.init p), .inr (ChunkInv.init p)⟩
    fun s ev _ ⟨hw, ho, hs, hc⟩ => ?_).2.2.2
  obtain ⟨ho', hs'⟩ := s.step_send p ho hs hw ev
  refine ⟨(s.step_wf p hw ev).1, ho', hs', ?_⟩
  rcases hc with he | hc
  · exact .inl ((s.step_wf p hw ev).2.2.2 he)
  rcases hs with he | hs
  · exact .inl ((s.step_wf p hw ev).2.2.2 he)
  cases he : s.rx.ended with
  | true => exact .inl ((s.step_wf p hw ev).2.2.2 he)
  | false =>
    by_cases hev : ev = .finish
    · rw [hev]
      refine .inl ?_
      simp only [step, finish]
      rw [if_neg (by rw [he]; decide)]
      exact (Rx.finish_spec s.rx).2.1
    · exact .inr (step_chunks hc he hs hev)

/-- **The chunks cover the send buffer** in every state of a run that has not ended: the base is at
most the front, the chunks reach the reserved end, the ring is large enough for every reservation
within the window, and every read of a Fill on any lane, of the early span and of a Write's copy
addresses a held chunk. -/
theorem send_chunks_cover (p : Params) (evs : List Ev)
    (he : (Session.after p evs).rx.ended = false) :
    let s := Session.after p evs
    s.tx.cbase ≤ s.tx.sBase ∧
      (s.tx.sBase < s.tx.resEnd → s.tx.resEnd ≤ s.tx.cbase + s.tx.chunks * chunkSize) ∧
      s.tx.chunks ≤ p.ringCap ∧
      (∀ (grants : Nat) (k : Int), k ≤ s.sendRoom p →
        (Session.reserveChunks p grants k s.tx).1 = k ∨
          (Session.reserveChunks p grants k s.tx).2.chunks = s.tx.chunks + grants) ∧
      (∀ l i, ∀ r ∈ s.fillReads p l i, s.tx.Holds r.1 r.2) ∧
      (p.role = .dialer → s.phase = .pending → ∀ r ∈ s.earlyReads p, s.tx.Holds r.1 r.2) ∧
      (∀ x, s.tx.endOff ≤ x → x < s.tx.resEnd → s.tx.Holds x 1) := by
  intro s
  have hc := (ChunkInv.after p evs).resolve_left (by rw [he]; decide)
  have hs := (SendInv.after p evs).resolve_left (by rw [he]; decide)
  have hfront : s.tx.sBase ≤ s.tx.endOff := hc.front
  refine ⟨hc.base, hc.cover, hc.cap, fun grants k hk => reserveChunks_done hc grants hk,
    fun l i => fill_reads_held hc (fun _ => hs) l i, fun hr hp => ?_, fun x h1 h2 => ?_⟩
  · exact early_reads_held hc (hs.unborn (.inr ⟨hr, hp⟩)).2.2.1
  have hb : s.tx.cbase ≤ s.tx.sBase := hc.base
  have hcov : s.tx.resEnd ≤ s.tx.cbase + s.tx.chunks * chunkSize :=
    hc.cover (show s.tx.sBase < s.tx.resEnd by omega)
  exact Tx.Holds.of_range (by omega) (by omega) (by have := s.tx.lt_chunkEnd x; omega)

/-- A Write that reserved three bytes and still copies them: a chunk holds each of them. -/
theorem send_chunks_cover_copying :
    (Session.after (Params.sample .bond .dialer) [.write [1, 2, 3] false 1]).rx.ended = false ∧
      (Session.after (Params.sample .bond .dialer) [.write [1, 2, 3] false 1]).tx.Holds 2 1 :=
  ⟨by decide, (send_chunks_cover (Params.sample .bond .dialer) [.write [1, 2, 3] false 1]
    (by decide)).2.2.2.2.2.2 2 (by decide) (by decide)⟩

end Rendr
