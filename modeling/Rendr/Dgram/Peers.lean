import Mathlib.Data.List.Perm.Subperm
import Mathlib.Data.List.Range
import Rendr.Dgram.Recv
import Rendr.Dgram.Stamp
import Rendr.Session.Params

/-!
# Two packet sessions

Two honest packet sessions over carriers that may lose, duplicate and reorder what they carry: an
end receives any DGRAM its peer ever placed, any number of times and at any time, and so its PACKs
and its FIN once the final seq is fixed. A carrier that delivers in order, or that keeps what it
handed back from arriving, only has fewer runs. A dying carrier hands back any DGRAM placed on it.

* `pkt_at_most_once` — in selector and bond, in every state two such ends reach, `ReadFrom`
  returned each datagram the peer's `WriteTo` accepted at most once and with its bytes, an end has
  accepted no more seqs than its peer assigned, none of them beyond, and no end reported a PACK
  beyond what was sent, a DGRAM beyond the FIN, or a FIN that is below the data or conflicts.
-/

namespace Rendr.Dgram

open Sess Function List
open Snd (Stamped Grows PushIn)

/-- The configurations of the two ends, which agree on the mode and the first seq. -/
structure Pair where
  p : Role → Params
  mode : ∀ r, (p r).mode = (p .dialer).mode
  first : ∀ r, (p r).firstSeq = (p .dialer).firstSeq

/-- The violations an honest peer never causes. -/
def Err.slander : Err → Bool
  | .packBeyondSent | .dgramBeyondFin | .finBelowData | .finConflict => true
  | _ => false

/-- The two ends. -/
abbrev Peers := Role → Sess

namespace Peers

/-- What can happen to the two ends. A received frame is named by its place in the peer's
history. -/
inductive Ev
  | run (r : Role) (ev : Sess.Ev)
  /-- A carrier of `r` hands back a DGRAM placed on it. -/
  | unsent (r : Role) (n : Nat) (now : Int)
  | dgram (r : Role) (n : Nat) (pin : PushIn)
  | fin (r : Role)
  | pack (r : Role) (n : Nat)

/-- One event; a frame that was never placed is not received. -/
def step (k : Pair) (n : Peers) : Ev → Peers
  | .run r ev => update n r ((n r).step (k.p r) ev)
  | .unsent r j now =>
    match (n r).snd.frames[j]? with
    | none => n
    | some x => update n r { n r with snd := (n r).snd.step (k.p r) (.unsent x.1 x.2 now) }
  | .dgram r j pin =>
    match (n r.peer).snd.frames[j]? with
    | none => n
    | some x => update n r (report ((n r).datagram (k.p r) x.2 pin))
  | .fin r =>
    if (n r.peer).snd.finPlaced then
      update n r
        (report ((n r).control fun e => e.pktFin (k.p r) (n r.peer).snd.finOff))
    else n
  | .pack r j =>
    match (n r.peer).rcv.packs[j]? with
    | none => n
    | some x => update n r (report ((n r).control fun e => e.pack (k.p r) x))

/-- Two new sessions with their dedup windows. -/
def start (k : Pair) (w : Role → Wire.SeqWindow) : Peers := fun r => Sess.start (k.p r) (w r)

end Peers

/-! ### What an end has of its peer -/

/-- The datagrams the receive side ever let in and did not drop: queued, being copied, returned. -/
def Rcv.all (r : Rcv) : List Dg := r.rx ++ r.rcopy.toList ++ r.reads.map Got.dg

/-- **Fed by the peer.** Everything the receive side `r` holds, counts or reports came in a frame
of the send side `s`, each seq once; and no violation of an honest peer was reported. -/
structure Fed (s : Snd) (r : Rcv) : Prop where
  window : r.dedup.Seen r.seen
  took : ∀ x ∈ r.seen, ∃ y ∈ s.frames, y.2.seq = x
  once : r.seen.Nodup
  count : r.rxCount ≤ r.seen.length
  high : 0 < r.rxCount → r.rxHigh ∈ r.seen
  held : ∀ g ∈ r.all, ∃ y ∈ s.frames, y.2.dg = g ∧ y.2.seq ∈ r.seen
  distinct : (r.all.map Dg.id).Nodup
  fin : ∀ n, r.peerFin = some n → s.finPlaced = true ∧ s.finOff = n
  packs : ∀ k ∈ r.packs, k.received ≤ r.rxCount ∧ (0 < k.received → k.highestSeq ∈ r.seen)
  errs : ∀ e ∈ r.errs, e.slander = false

variable {p : Params} {s s' : Snd} {r r' : Rcv} {e : Sess}

namespace Fed

/-- What the peer does keeps it. -/
lemma grows (h : Fed s r) (hg : Grows s s') : Fed s' r :=
  { h with
    took := fun x hx => by
      obtain ⟨y, hy, hseq⟩ := h.took x hx
      exact ⟨y, hg.frames y hy, hseq⟩
    held := fun g hm => by
      obtain ⟨y, hy, hyg⟩ := h.held g hm
      exact ⟨y, hg.frames y hy, hyg⟩
    fin := fun n hn => by
      obtain ⟨hp, hoff⟩ := h.fin n hn
      exact ⟨(hg.fin hp).1, (hg.fin hp).2.trans hoff⟩ }

/-- Datagrams may move towards the application or be dropped. -/
lemma shuffle (h : Fed s r) (hall : r'.all.Subperm r.all)
    (hr : r' = { r with rx := r'.rx, rcopy := r'.rcopy, reads := r'.reads, pending := r'.pending
                        peerFinDelivered := r'.peerFinDelivered, peerHi := r'.peerHi
                        ctr := r'.ctr }) : Fed s r' where
  window := by rw [hr]; exact h.window
  took := by rw [hr]; exact h.took
  once := by rw [hr]; exact h.once
  count := by rw [hr]; exact h.count
  high := by rw [hr]; exact h.high
  held g hg := by
    rw [show r'.seen = r.seen by rw [hr]]
    exact h.held g (hall.subset hg)
  distinct := by
    obtain ⟨l, hl, hsub⟩ := hall
    exact ((hl.map Dg.id).nodup_iff).mp (h.distinct.sublist (hsub.map Dg.id))
  fin := by rw [hr]; exact h.fin
  packs := by rw [hr]; exact h.packs
  errs := by rw [hr]; exact h.errs

/-- What is reported is no slander. -/
lemma report {o : Option Err} (h : Fed s e.rcv) (ho : ∀ x, o = some x → x.slander = false) :
    Fed s (report (e, o)).rcv :=
  { h with
    errs := fun x hx => by
      rcases mem_append.mp hx with hx | hx
      · exact ho x (Option.mem_toList.mp hx)
      · exact h.errs x hx }

variable {k : Nat}

/-- An end has accepted no more seqs than the peer assigned. -/
lemma seen_length (h : Fed s r) (hs : Stamped p k s) :
    r.seen.length ≤ s.nextSeq - p.firstSeq := by
  have hsub : r.seen ⊆ List.range' p.firstSeq (s.nextSeq - p.firstSeq) := fun x hx => by
    obtain ⟨y, hy, rfl⟩ := h.took x hx
    have hrange := hs.range y hy
    exact mem_range'_1.mpr ⟨hrange.1, by omega⟩
  have hlen := (h.once.subperm hsub).length_le
  rwa [length_range'] at hlen

/-- A seq an end has accepted was assigned. -/
lemma seen_range {k x : Nat} (h : Fed s r) (hs : Stamped p k s) (hx : x ∈ r.seen) :
    p.firstSeq ≤ x ∧ x < s.nextSeq := by
  obtain ⟨y, hy, rfl⟩ := h.took x hx
  exact hs.range y hy

/-- The end of the peer's direction. -/
lemma pktDeliverFin (h : Fed s e.rcv) : Fed s e.pktDeliverFin.rcv :=
  h.shuffle (List.Subperm.refl _) rfl

lemma pktFinCheck (h : Fed s e.rcv) (p : Params) (waited : Bool) :
    Fed s (e.pktFinCheck p waited).rcv := by
  unfold Sess.pktFinCheck
  split
  · exact h
  split
  · exact h
  split
  · exact h.pktDeliverFin
  · exact h

/-! ### Receiving -/

/-- The receive queue keeps some of what it had, and perhaps the new datagram. -/
lemma rxPush_sublist (p : Params) (q : List Dg) (g : Dg) (pin : PushIn) :
    (rxPush p q g pin).Sublist (q ++ [g]) := by
  have hevict : ∀ q : List Dg, (rxEvict p (pcharge g.n) q).Sublist q := fun q => by
    induction q with
    | nil => exact List.Sublist.refl _
    | cons a as ih =>
      unfold rxEvict
      split
      · exact ih.cons a
      · exact List.Sublist.refl _
  have hdrop := (drop_sublist pin.spare _).trans (hevict q)
  have htail := (tail_sublist _).trans hdrop
  unfold rxPush
  dsimp only
  split
  · exact (hevict q).append_right [g]
  split
  · exact hdrop.append_right [g]
  split
  · exact hdrop.trans (sublist_append_left ..)
  split
  · exact htail.append_right [g]
  · exact htail.trans (sublist_append_left ..)

variable {y : Nat × Frame}

section

variable (h : Fed s e.rcv)
include h

/-- The window answers for the seq of a frame of the peer: a seq it takes is new. -/
lemma offer (hs : Stamped p k s) (hy : y ∈ s.frames) :
    Fed s (e.offer y.2).1.rcv ∧ ((e.offer y.2).2 = .new →
      y.2.seq ∈ (e.offer y.2).1.rcv.seen ∧ e.rcv.rxCount + 1 ≤ (e.offer y.2).1.rcv.seen.length ∧
      ∀ g ∈ e.rcv.all, g.id ≠ y.2.dg.id) := by
  unfold Sess.offer
  dsimp only
  by_cases hv : (e.rcv.dedup.accept y.2.seq).2 = .new
  · obtain ⟨hnot, hseen⟩ := h.window.accept_new hv
    rw [if_pos hv]
    have hold : ∀ x, x ∈ e.rcv.seen → x ∈ y.2.seq :: e.rcv.seen := fun x =>
      mem_cons_of_mem _
    refine ⟨⟨hseen, fun x hx => ?_, nodup_cons.mpr ⟨hnot, h.once⟩,
      Nat.le_succ_of_le h.count, fun h0 => hold _ (h.high h0), fun g hg => ?_, h.distinct, h.fin,
      fun k hk => ⟨(h.packs k hk).1, fun h0 => hold _ ((h.packs k hk).2 h0)⟩, h.errs⟩, fun _ =>
      ⟨mem_cons_self .., Nat.succ_le_succ h.count, fun g hg heq => ?_⟩⟩
    · rcases mem_cons.mp hx with rfl | hx
      · exact ⟨y, hy, rfl⟩
      · exact h.took x hx
    · obtain ⟨z, hz, hzg, hzs⟩ := h.held g hg
      exact ⟨z, hz, hzg, hold _ hzs⟩
    · -- a datagram let in before has its seq among those seen
      obtain ⟨z, hz, rfl, hzs⟩ := h.held g hg
      exact hnot ((hs.one z hz y hy).mp heq ▸ hzs)
  · rw [if_neg hv, Wire.SeqWindow.accept_other hv]
    exact ⟨{ h with }, fun hn => absurd hn hv⟩

/-- A new datagram of the peer joins those let in. -/
lemma acceptDatagram (hy : y ∈ s.frames) (hseen : y.2.seq ∈ e.rcv.seen)
    (hcount : e.rcv.rxCount + 1 ≤ e.rcv.seen.length) (hnew : ∀ g ∈ e.rcv.all, g.id ≠ y.2.dg.id)
    (p : Params) (pin : PushIn) : Fed s (e.acceptDatagram p y.2 pin).rcv := by
  have hhigh : (if e.rcv.rxCount = 0 ∨ e.rcv.rxHigh < y.2.seq then y.2.seq else e.rcv.rxHigh) ∈
      e.rcv.seen := by
    split
    · exact hseen
    next hc => exact h.high (by omega)
  have hpacks : ∀ k ∈ e.rcv.packs,
      k.received ≤ e.rcv.rxCount + 1 ∧ (0 < k.received → k.highestSeq ∈ e.rcv.seen) := fun k hk =>
    ⟨Nat.le_succ_of_le (h.packs k hk).1, (h.packs k hk).2⟩
  unfold Sess.acceptDatagram
  dsimp only
  split
  · exact { h with count := hcount, high := fun _ => hhigh, packs := hpacks }
  -- the queue is part of the old one with the new datagram behind it
  let big : Rcv := { e.rcv with rx := e.rcv.rx ++ [y.2.dg] }
  have hperm : big.all.Perm (y.2.dg :: e.rcv.all) := by
    simp only [big, Rcv.all, append_assoc]
    exact perm_middle
  have hall : (Rcv.all { e.rcv with rx := rxPush p e.rcv.rx y.2.dg pin }).Sublist big.all :=
    ((rxPush_sublist p e.rcv.rx y.2.dg pin).append_right _).append_right _
  refine { h with count := hcount, high := fun _ => hhigh, packs := hpacks, held := fun g hg => ?_
                  distinct := ?_ }
  · rcases mem_cons.mp (hperm.subset (hall.subset hg)) with rfl | hg
    · exact ⟨y, hy, rfl, hseen⟩
    · exact h.held g hg
  have hnodup : ((y.2.dg :: e.rcv.all).map Dg.id).Nodup := by
    rw [map_cons, nodup_cons]
    refine ⟨fun hmem => ?_, h.distinct⟩
    obtain ⟨g, hg, heq⟩ := mem_map.mp hmem
    exact hnew g hg heq
  exact (((hperm.map Dg.id).nodup_iff).mpr hnodup).sublist (hall.map Dg.id)

/-- **A DGRAM of the peer** is new, a duplicate or late; it is not beyond the peer's FIN. -/
lemma datagram (hs : Stamped p k s) (hy : y ∈ s.frames) (q : Params) (pin : PushIn) :
    Fed s (Sess.report (e.datagram q y.2 pin)).rcv := by
  have hbeyond : ¬(e.rcv.peerFin.any (· ≤ y.2.seq)) = true := by
    intro hany
    rcases hp : e.rcv.peerFin with _ | n
    · rw [hp] at hany
      cases hany
    rw [hp, Option.any_some, decide_eq_true_eq] at hany
    obtain ⟨hplaced, hoff⟩ := h.fin n hp
    have hlt := (hs.range y hy).2
    have hnext := (hs.fixed hplaced).2.1
    omega
  obtain ⟨hoffer, hnew⟩ := h.offer hs hy
  unfold Sess.datagram
  split
  · exact h.report fun x hx => by cases hx
  split
  · exact h.report fun x hx => by cases hx; rfl
  split
  · exact h.report fun x hx => by cases hx; rfl
  split
  · exact h.report fun x hx => by cases hx; rfl
  have hplain : ∀ c, Fed s { (e.offer y.2).1.rcv with ctr := c } := fun c => { hoffer with }
  rcases ho : e.offer y.2 with ⟨e', v⟩
  rw [ho] at hoffer hnew hplain
  cases v with
  | duplicate | late => exact Fed.report (e := ⟨e'.snd, _⟩) (hplain _) fun x hx => by cases hx
  | new =>
    dsimp only
    split
    · exact Fed.report (e := ⟨e'.snd, _⟩) (hplain _) fun x hx => by cases hx
    obtain ⟨hseen, hcount, hdiff⟩ := hnew rfl
    have hsame : e'.rcv.rxCount = e.rcv.rxCount ∧ e'.rcv.all = e.rcv.all := by
      have := congrArg Prod.fst ho
      simp only [offer] at this
      rw [← this]
      exact ⟨rfl, rfl⟩
    refine (hoffer.acceptDatagram hy hseen ?_ ?_ q pin).report fun x hx => by cases hx
    · rw [hsame.1]
      exact hcount
    · rw [hsame.2]
      exact hdiff

/-- **A FIN of the peer** says the same final seq each time, beyond every seq accepted. -/
lemma pktFin (hs : Stamped p k s) (hplaced : s.finPlaced = true) (q : Params)
    (hfirst : q.firstSeq = p.firstSeq) : Fed s (Sess.report (e.pktFin q s.finOff)).rcv := by
  have hoff := (hs.fixed hplaced).2.1
  unfold Sess.pktFin
  split
  next old hold =>
    rw [if_pos (h.fin old hold).2]
    exact h.report fun x hx => by cases hx
  split
  next hbelow =>
    rcases hbelow with hlow | ⟨hpos, hle⟩
    · have := hs.low
      omega
    · have := (h.seen_range hs (h.high hpos)).2
      omega
  split
  · exact h.report fun x hx => by cases hx; rfl
  have hset : Fed s { e.rcv with peerFin := some s.finOff } :=
    { h with fin := fun n hn => ⟨hplaced, Option.some.inj hn⟩ }
  refine Fed.report (Fed.pktFinCheck ?_ q false) fun x hx => by cases hx
  split
  · exact Fed.pktDeliverFin (e := ⟨e.snd.peerFin, _⟩) hset
  · exact hset

/-- **A PACK of the peer**, whose receive side is `r`, reports seqs this end assigned. -/
lemma pack {x : Pack} (hpeer : Fed e.snd r) (hx : x ∈ r.packs) (hs : Stamped p k e.snd)
    : Fed s (Sess.report (e.pack p x)).rcv := by
  obtain ⟨hcount, hhigh⟩ := hpeer.packs x hx
  have hlen := hpeer.seen_length hs
  have hle := hpeer.count
  unfold Sess.pack
  rw [if_neg (by omega), if_neg]
  · split
    · exact h.report fun x hx => by cases hx; rfl
    · exact Fed.report (e := ⟨_, _⟩) (h.shuffle (List.Subperm.refl _) rfl) fun x hx => by cases hx
  · rintro ⟨hpos, hout⟩
    have hrange := hpeer.seen_range hs (hhigh hpos)
    omega

/-- Control frames after the end and before the verdict. -/
lemma control {deliver : Sess → Sess × Option Err} (hd : Fed s (Sess.report (deliver e)).rcv) :
    Fed s (Sess.report (e.control deliver)).rcv := by
  unfold Sess.control
  split
  · exact h.report fun x hx => by cases hx
  split
  · exact h.report fun x hx => by cases hx; rfl
  · exact hd

/-! ### The application -/

lemma readFrom (late : Bool) : Fed s (e.readFrom late).rcv := by
  unfold Sess.readFrom
  split
  · exact h
  next hc =>
  split
  · exact h
  next g gs hrx =>
  have hnone : e.rcv.rcopy = none := by
    simp only [Bool.or_eq_true, not_or, Option.isSome_iff_ne_none, ne_eq, not_not] at hc
    exact hc.2
  refine h.shuffle ?_ rfl
  simp only [Rcv.all, hrx, hnone, Option.toList_none, Option.toList_some, append_nil]
  exact ((perm_append_singleton g gs).append_right _).subperm

lemma readDone (p : Params) (room : Nat) (waited : Bool) :
    Fed s (e.readDone p room waited).rcv := by
  unfold Sess.readDone
  split
  · exact h
  next g hcopy =>
  split
  · refine h.shuffle (List.Sublist.subperm ?_) rfl
    simp only [Rcv.all, hcopy, Option.toList_none, Option.toList_some, append_nil,
      append_assoc]
    exact (sublist_append_right [g] _).append_left _
  have hgot : Fed s { e.rcv with rcopy := none, reads := ⟨g, room⟩ :: e.rcv.reads } := by
    refine h.shuffle (List.Perm.subperm ?_) rfl
    simp only [Rcv.all, hcopy, Option.toList_none, Option.toList_some, append_nil,
      append_assoc, map_cons, singleton_append]
    exact List.Perm.refl _
  split
  · exact Fed.pktFinCheck (e := ⟨e.snd, _⟩) hgot p waited
  · exact hgot

lemma close : Fed s e.close.rcv := by
  have hclear : Fed s { e.rcv with rx := [] } :=
    h.shuffle (((nil_sublist _).append_right _).append_right _).subperm rfl
  unfold Sess.close
  split
  · exact h
  split
  · exact Fed.pktDeliverFin (e := ⟨e.snd.close, _⟩) hclear
  · exact hclear

lemma finish : Fed s e.finish.rcv :=
  h.shuffle (((nil_sublist _).append_right _).append_right _).subperm rfl

/-- **One event of its own** keeps an end fed. -/
lemma step (p : Params) (ev : Sess.Ev) : Fed s (e.step p ev).rcv := by
  cases ev with
  | send ev =>
    simp only [Sess.step]
    split <;> exact h
  | placePack flags =>
    refine { h with packs := fun k hk => ?_ }
    rcases mem_cons.mp hk with rfl | hk
    · refine ⟨le_rfl, fun hpos => ?_⟩
      change 0 < e.rcv.rxCount at hpos
      change (if 0 < e.rcv.rxCount then e.rcv.rxHigh else 0) ∈ e.rcv.seen
      rw [if_pos hpos]
      exact h.high hpos
    · exact h.packs k hk
  | opened => exact h.shuffle (List.Subperm.refl _) rfl
  | readFrom late => exact h.readFrom late
  | readDone room waited => exact h.readDone p room waited
  | finWait => exact h.pktFinCheck p true
  | close => exact h.close
  | finish => exact h.finish

end

end Fed

/-! ### The send side of a session -/

lemma pktFinCheck_snd (p : Params) (waited : Bool) : (e.pktFinCheck p waited).snd = e.snd := by
  unfold pktFinCheck
  repeat' split
  all_goals rfl

lemma datagram_snd (p : Params) (f : Frame) (pin : PushIn) :
    (report (e.datagram p f pin)).snd = e.snd := by
  have hoffer : (e.offer f).1.snd = e.snd := rfl
  unfold datagram
  split
  · rfl
  split
  · rfl
  split
  · rfl
  split
  · rfl
  split
  · rfl
  rcases ho : e.offer f with ⟨e', v⟩
  rw [ho] at hoffer
  cases v with
  | duplicate | late => exact hoffer
  | new =>
    dsimp only
    split
    · exact hoffer
    · unfold acceptDatagram
      dsimp only
      split <;> exact hoffer

lemma control_snd (deliver : Sess → Sess × Option Err) :
    (report (e.control deliver)).snd = e.snd ∨
    (report (e.control deliver)).snd = (deliver e).1.snd := by
  unfold Sess.control
  split
  · exact Or.inl rfl
  split
  · exact Or.inl rfl
  · exact Or.inr rfl

lemma pktFin_snd (p q : Params) (final : Nat) :
    (e.pktFin p final).1.snd = e.snd ∨ (e.pktFin p final).1.snd = e.snd.step q .peerFin := by
  unfold pktFin
  split
  · exact Or.inl rfl
  split
  · exact Or.inl rfl
  split
  · exact Or.inl rfl
  · refine Or.inr ((pktFinCheck_snd p false).trans ?_)
    split <;> rfl

lemma pack_snd (p q : Params) (x : Pack) :
    (e.pack p x).1.snd = e.snd ∨ (e.pack p x).1.snd = e.snd.step q .ackFin := by
  unfold pack
  split
  · exact Or.inl rfl
  split
  · exact Or.inl rfl
  split
  · exact Or.inl rfl
  · cases x.finDelivered
    · exact Or.inl rfl
    · exact Or.inr rfl

lemma step_snd (p : Params) (ev : Sess.Ev) :
    (e.step p ev).snd = e.snd ∨
    ∃ sev, (∀ i f t, sev ≠ .unsent i f t) ∧ (e.step p ev).snd = e.snd.step p sev := by
  cases ev with
  | send sev =>
    simp only [step]
    split
    next hs =>
      refine Or.inr ⟨sev, fun i f t heq => ?_, rfl⟩
      rw [heq] at hs
      cases hs
    · exact Or.inl rfl
  | placePack flags | opened => exact Or.inl rfl
  | readFrom late =>
    refine Or.inl ?_
    simp only [step, readFrom]
    repeat' split
    all_goals rfl
  | readDone room waited =>
    refine Or.inl ?_
    simp only [step, readDone]
    split
    · rfl
    split
    · rfl
    split
    · exact pktFinCheck_snd p waited
    · rfl
  | finWait => exact Or.inl (pktFinCheck_snd p true)
  | close =>
    simp only [step, close]
    split
    · exact Or.inl rfl
    · refine Or.inr ⟨.close, (fun i f t heq => by cases heq), ?_⟩
      split <;> rfl
  | finish => exact Or.inr ⟨.finish, (fun i f t heq => by cases heq), rfl⟩

/-! ### Both ends -/

namespace Peers

/-- **Both directions**: each end assigns seqs one to one, and is fed by the other. -/
def Inv (k : Pair) (n : Peers) : Prop :=
  ∀ r, Stamped (k.p r) (n r).snd.log.length (n r).snd ∧ Fed (n r.peer).snd (n r).rcv

variable {k : Pair} {n : Peers}

/-- A step of one end. -/
lemma Inv.update (h : Inv k n) (r : Role) {e : Sess}
    (hs : Stamped (k.p r) e.snd.log.length e.snd ∧ Grows (n r).snd e.snd)
    (hf : Fed (n r.peer).snd e.rcv) : Inv k (update n r e) := by
  intro q
  by_cases hq : q = r
  · subst hq
    rw [update_self, update_of_ne (Role.peer_ne q)]
    exact ⟨hs.1, hf⟩
  -- the other end: what it got is still among what this one placed
  have hqr : q.peer = r := by
    cases q <;> cases r <;> first | rfl | exact absurd rfl hq
  rw [hqr, update_self, update_of_ne hq]
  have hfed := (h q).2
  rw [hqr] at hfed
  exact ⟨(h q).1, hfed.grows hs.2⟩

/-- **One event keeps both directions.** -/
lemma Inv.step (hm : (k.p .dialer).mode ≠ .race) (h : Inv k n) (ev : Ev) :
    Inv k (Peers.step k n ev) := by
  have hmode : ∀ r, (k.p r).mode ≠ .race := fun r => by rw [k.mode r]; exact hm
  have hstay : ∀ (r : Role) {e : Sess}, e.snd = (n r).snd →
      Stamped (k.p r) e.snd.log.length e.snd ∧ Grows (n r).snd e.snd := fun r e heq => by
    rw [heq]
    exact ⟨(h r).1, .refl _⟩
  have hmove : ∀ (r : Role) (sev : Snd.Ev) {e : Sess}, (∀ i f t, sev ≠ .unsent i f t) →
      e.snd = (n r).snd.step (k.p r) sev →
      Stamped (k.p r) e.snd.log.length e.snd ∧ Grows (n r).snd e.snd := fun r sev e hne heq => by
    rw [heq]
    exact (h r).1.step (hmode r) sev fun i f t hu => absurd hu (hne i f t)
  cases ev with
  | run r ev =>
    refine h.update r ?_ ((h r).2.step (k.p r) ev)
    rcases step_snd (e := n r) (k.p r) ev with heq | ⟨sev, hne, heq⟩
    · exact hstay r heq
    · exact hmove r sev hne heq
  | unsent r j now =>
    simp only [Peers.step]
    split
    · exact h
    next x hx =>
    refine h.update r ((h r).1.step (hmode r) _ fun i f t hu => ?_) (h r).2
    cases hu
    exact mem_of_getElem? hx
  | dgram r j pin =>
    simp only [Peers.step]
    split
    · exact h
    next x hx =>
    exact h.update r (hstay r (datagram_snd ..))
      ((h r).2.datagram (h r.peer).1 (mem_of_getElem? hx) (k.p r) pin)
  | fin r =>
    simp only [Peers.step]
    refine guard h fun hplaced => ?_
    refine h.update r ?_ ((h r).2.control ((h r).2.pktFin (h r.peer).1 hplaced (k.p r) ?_))
    · rcases control_snd (e := n r) fun e => e.pktFin (k.p r) (n r.peer).snd.finOff with heq | heq
      · exact hstay r heq
      rcases pktFin_snd (e := n r) (k.p r) (k.p r) (n r.peer).snd.finOff with heq' | heq'
      · exact hstay r (heq.trans heq')
      · exact hmove r .peerFin (fun i f t hu => by cases hu) (heq.trans heq')
    · rw [k.first r, k.first r.peer]
  | pack r j =>
    simp only [Peers.step]
    split
    · exact h
    next x hx =>
    have hpeer := (h r.peer).2
    rw [Role.peer_peer] at hpeer
    refine h.update r ?_
      ((h r).2.control ((h r).2.pack hpeer (mem_of_getElem? hx) (h r).1))
    rcases control_snd (e := n r) fun e => e.pack (k.p r) x with heq | heq
    · exact hstay r heq
    rcases pack_snd (e := n r) (k.p r) (k.p r) x with heq' | heq'
    · exact hstay r (heq.trans heq')
    · exact hmove r .ackFin (fun i f t hu => by cases hu) (heq.trans heq')

lemma Inv.start (k : Pair) {w : Role → Wire.SeqWindow} (hw : ∀ r, (w r).Seen []) :
    Inv k (Peers.start k w) := fun r => ⟨Stamped.start (k.p r),
  { window := hw r
    took := fun x hx => absurd hx not_mem_nil
    once := nodup_nil
    count := le_rfl
    high := fun h0 => absurd h0 (lt_irrefl 0)
    held := fun g hg => absurd hg not_mem_nil
    distinct := nodup_nil
    fin := fun n hn => by cases hn
    packs := fun k hk => absurd hk not_mem_nil
    errs := fun e he => absurd he not_mem_nil }⟩

/-- **A packet session delivers at most once, and honest peers never violate.** In every state two
ends of a selector or bond packet session reach, for each of them: `ReadFrom` returned each
datagram the peer's `WriteTo` accepted at most once, byte for byte as far as the caller's buffer
went; it has accepted no more seqs than the peer assigned, the highest of them below the peer's
next; and none of the four violations was reported. -/
theorem pkt_at_most_once (k : Pair) (hm : (k.p .dialer).mode ≠ .race) (words : Role → Nat)
    (w : Role → Wire.SeqWindow) (hw : ∀ r, Wire.SeqWindow.init (words r) = some (w r))
    (evs : List Ev) (r : Role) :
    let n := runFrom (Peers.step k) (Peers.start k w) evs
    ((n r).rcv.reads.map fun g => g.dg.id).Nodup ∧
    (∀ g ∈ (n r).rcv.reads, ∃ body, (n r.peer).snd.log[g.dg.id]? = some body ∧
      g.bytes = body.take g.room ∧ (g.short = false → g.bytes = body)) ∧
    (n r).rcv.rxCount ≤ (n r.peer).snd.nextSeq - (k.p r.peer).firstSeq ∧
    (0 < (n r).rcv.rxCount → (n r).rcv.rxHigh < (n r.peer).snd.nextSeq) ∧
    Err.packBeyondSent ∉ (n r).rcv.errs ∧ Err.dgramBeyondFin ∉ (n r).rcv.errs ∧
    Err.finBelowData ∉ (n r).rcv.errs ∧ Err.finConflict ∉ (n r).rcv.errs := by
  intro n
  have hinv : Inv k n := runFrom_inv (Inv k)
    (Inv.start k fun r => Wire.SeqWindow.init_seen (hw r)) fun _ ev _ h => h.step hm ev
  have hst := (hinv r.peer).1
  have hfed := (hinv r).2
  have hread : ∀ g ∈ (n r).rcv.reads, g.dg ∈ (n r).rcv.all := fun g hg =>
    mem_append_right _ (mem_map_of_mem hg)
  have herr : ∀ x, Err.slander x = true → x ∉ (n r).rcv.errs := fun x hx hmem => by
    rw [hfed.errs x hmem] at hx
    cases hx
  refine ⟨?_, fun g hg => ?_, le_trans hfed.count (hfed.seen_length hst), fun hpos =>
    (hfed.seen_range hst (hfed.high hpos)).2, herr _ rfl, herr _ rfl, herr _ rfl, herr _ rfl⟩
  · have hd := hfed.distinct
    rw [Rcv.all, map_append, map_map] at hd
    exact (nodup_append.mp hd).2.1
  obtain ⟨y, hy, hyg, -⟩ := hfed.held g.dg (hread g hg)
  have hbody := (hst.body y hy).2
  rw [hyg] at hbody
  refine ⟨g.dg.body, hbody, rfl, fun hshort => ?_⟩
  exact take_of_length_le (Nat.le_of_not_lt (of_decide_eq_false hshort))

/-- Two selector ends with the smallest dedup windows. -/
def demoPair : Pair where
  p r := ⟨.selector, r = .passive, 1200, 1048576, 10, 0, 100⟩
  mode _ := rfl
  first _ := rfl

/-- The dialer's datagram is placed, handed back and placed again with its seq; the passive
receives both copies, reads once, and reports. -/
def demoTwice : List Ev :=
  [.run .passive .opened, .run .dialer (.send (.attach true true true)),
    .run .dialer (.send (.routing [true] true 0)),
    .run .dialer (.send (.writeTo [1, 2, 3] 0 ⟨true, false, 0, true, true, false⟩)),
    .run .dialer (.send (.fill 0 ⟨1, true, false, true, false, 1200, 64, none, 0, true, []⟩)),
    .unsent .dialer 0 2,
    .run .dialer (.send (.fill 0 ⟨3, true, false, true, false, 1200, 64, none, 0, true, []⟩)),
    .dgram .passive 0 ⟨false, true, 0, true, true, false⟩,
    .dgram .passive 1 ⟨false, true, 0, true, true, false⟩,
    .run .passive (.readFrom false), .run .passive (.readDone 1500 false),
    .run .passive (.placePack true), .pack .dialer 0]

theorem pkt_at_most_once_twice :
    let w : Role → Wire.SeqWindow := fun _ => ⟨0, false, 16, fun _ => false, by decide⟩
    let n := runFrom (Peers.step demoPair) (Peers.start demoPair w) demoTwice
    (n .dialer).snd.frames.length = 2 ∧ (n .passive).rcv.ctr.duplicates = 1 ∧
    (n .passive).rcv.reads.map Got.bytes = [[1, 2, 3]] ∧
    (n .passive).rcv.rxCount ≤ (n .dialer).snd.nextSeq - 0 ∧
    Err.packBeyondSent ∉ (n .dialer).rcv.errs := by
  intro w n
  have hrun := fun r => pkt_at_most_once demoPair (by decide) (fun _ => 16) w (fun _ => rfl)
    demoTwice r
  exact ⟨by decide +kernel, by decide +kernel, by decide +kernel, (hrun .passive).2.2.1,
    (hrun .dialer).2.2.2.2.1⟩

end Peers

end Rendr.Dgram
