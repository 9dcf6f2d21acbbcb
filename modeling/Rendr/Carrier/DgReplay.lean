import Rendr.Carrier.DgRead

/-!
# Anti-replay of a datagram direction

* `dg_anti_replay` — in every run of the reader, over datagrams of arbitrary octets, sources and
  times, the window is the reference model's of the fseqs it took; it never moves backward; it moves
  by the window's width or more only in a datagram that proved itself when its first ahead frame was
  read; an ahead frame without that proof changes nothing but the flags of its datagram; and while
  the window moved less than `2 ^ 31` in all, no fseq is dispatched twice and none below the first.
-/

open Rendr.Octets Rendr.Wire

namespace Rendr.Carrier.Dg

open List FseqWindow

variable {κ ρ : Type} [DecidableEq κ] {E : Env ρ} {s : Rd κ ρ}

/-- **The proof of a jump**: a PONG among the frames of `data` that answers a PING record
outstanding, or the challenge in flight from its candidate. -/
def Proof (E : Env ρ) (j : Jump κ) : Prop :=
  ∃ f ∈ Rd.framesOf E j.data.length j.data, f.header.type = typePong ∧
    ∃ p, parsePing f.payload = .ok p ∧
      (p.id ≠ 0 ∧ outstanding j.pings p.id p.nonce = true ∨
        p.id = 0 ∧ j.chal.active = true ∧ j.chal.expired j.now = false ∧ p.nonce = j.chal.nonce ∧
          j.chal.cand = some j.src)

namespace Rd

/-- How far the window moves along a run. -/
def travel (E : Env ρ) : Rd κ ρ → List (Ev κ) → Nat
  | _, [] => 0
  | s, ev :: evs => ((s.step E ev).rwin.top - s.rwin.top).toNat + travel E (s.step E ev) evs

/-! ### What the steps do to the window -/

/-- What the window's proofs look at. -/
def core (s : Rd κ ρ) := (s.rwin, s.took, s.dispatched, s.jumps, s.proven)

lemma rebind_core (src : κ) (now rto : Int) (nonce : UInt64) (r : Bool) :
    (s.rebind src now rto nonce r).core = s.core ∧ (s.rebind src now rto nonce r).cur = s.cur := by
  unfold rebind
  split
  · split <;> exact ⟨rfl, rfl⟩
  · split <;> exact ⟨rfl, rfl⟩

lemma finish_core (c : Cur κ) (rto : Int) (nonce : UInt64) :
    (s.finish c rto nonce).core = s.core ∧ (s.finish c rto nonce).cur = none := by
  unfold finish
  split
  · exact rebind_core ..
  · exact ⟨rfl, rfl⟩

lemma onChallengePong_core (nonce : UInt64) (src : κ) (now : Int) :
    (s.onChallengePong nonce src now).1.core = s.core := by
  unfold onChallengePong setPeer
  split
  · simp only
    split
    · rfl
    rename_i h
    split at h
    · cases h
    · cases h
      rfl
  · rfl

lemma dispatch_core (f : Frame) (c : Cur κ) :
    (s.dispatch E f c).1.core =
      (s.rwin, s.took, f.header.fseq :: s.dispatched, s.jumps, s.proven) := by
  unfold dispatch
  simp only
  split
  · split
    · rfl
    split
    · split
      · rfl
      rename_i p _ _ _
      have h := onChallengePong_core (s := { s with dispatched := f.header.fseq :: s.dispatched })
        p.nonce c.src c.now
      split <;> (rename_i e; rw [e] at h; exact h)
    · rfl
  · split <;> rfl

/-- A frame the window took is recorded, dispatched or not, and leaves the rest of its datagram in
hand or none of it. -/
lemma deliver_core (f : Frame) (c : Cur κ) (rest : Bytes) :
    ((s.deliver E f c rest).core =
        (s.rwin, f.header.fseq :: s.took, s.dispatched, s.jumps, s.proven) ∨
      (s.deliver E f c rest).core =
        (s.rwin, f.header.fseq :: s.took, f.header.fseq :: s.dispatched, s.jumps, s.proven)) ∧
    ∀ c', (s.deliver E f c rest).cur = some c' →
      c'.data = rest ∧ c'.src = c.src ∧ c'.now = c.now ∧ c'.proof = c.proof := by
  unfold deliver
  simp only
  split
  · refine ⟨.inl rfl, fun c' h => ?_⟩
    cases h
    exact ⟨rfl, rfl, rfl, rfl⟩
  have h := dispatch_core (E := E) (s := { s with took := f.header.fseq :: s.took }) f
    { c with data := rest, advanced := true }
  split
  next e =>
    rw [e] at h
    exact ⟨.inr h, fun c' hc => nomatch hc⟩
  rename_i e
  rw [e] at h
  refine ⟨.inr h, fun c' hc => ?_⟩
  cases hc
  exact ⟨rfl, rfl, rfl, rfl⟩

/-! ### The invariant -/

/-- What holds between two steps of the reader. -/
structure Replay (E : Env ρ) (first : Nat) (s : Rd κ ρ) (top : Nat) (xs : List Nat) : Prop where
  window : s.rwin.Models first top xs
  took : s.took = xs.map wrap
  nodup : xs.Nodup
  dispatched : s.dispatched.Sublist s.took
  /-- A proven datagram in hand: the proof was checked at a frame it has passed or stands at. -/
  proven : ∀ c, s.cur = some c → c.proof = some true → ∃ j, s.proven = some j ∧ Proof E j ∧
    c.data <:+ j.data ∧ j.src = c.src ∧ j.now = c.now

variable {xs : List Nat} {first top : Nat}

/-- A step that leaves the window alone. -/
lemma Replay.same {s' : Rd κ ρ} (h : s.Replay E first top xs) (hc : s'.core = s.core)
    (hcur : ∀ c, s'.cur = some c → c.proof = some true → ∃ j, s.proven = some j ∧ Proof E j ∧
      c.data <:+ j.data ∧ j.src = c.src ∧ j.now = c.now)
    : s'.Replay E first top xs := by
  simp only [core, Prod.mk.injEq] at hc
  obtain ⟨h1, h2, h3, -, h5⟩ := hc
  refine ⟨h1 ▸ h.window, h2 ▸ h.took, h.nodup, by rw [h2, h3]; exact h.dispatched, fun c hc hp => ?_⟩
  rw [h5]
  exact hcur c hc hp

lemma nextFrame_suffix {data rest : Bytes} {f : Frame} (h : nextFrame E data = some (f, rest)) :
    rest <:+ data := by
  unfold nextFrame at h
  split at h
  · cases h
  split at h
  · cases h
  · cases h
    exact drop_suffix ..

lemma jumpProof_spec {c : Cur κ} (h : s.jumpProof E c.data c.src c.now = true) (d : Nat) :
    Proof E ⟨d, c.data, c.src, c.now, s.pings, s.chal⟩ := by
  unfold jumpProof at h
  obtain ⟨f, hf, hp⟩ := any_eq_true.1 h
  unfold proves at hp
  simp only [Bool.and_eq_true, beq_iff_eq] at hp
  obtain ⟨ht, hp⟩ := hp
  refine ⟨f, hf, ht, ?_⟩
  split at hp
  · cases hp
  rename_i p hparse
  refine ⟨p, hparse, ?_⟩
  split at hp
  · exact .inl ⟨by assumption, hp⟩
  rename_i hid
  simp only [Chal.answers, Bool.and_eq_true, Bool.not_eq_eq_eq_not, Bool.not_true,
    beq_iff_eq] at hp
  exact .inr ⟨not_not.1 hid, hp.1.1.1, hp.1.1.2, hp.1.2, hp.2⟩

/-- A frame the window took, by `Accept` or by a jump. -/
lemma Replay.taken {first top' x : Nat} {f : Frame} {c : Cur κ} {rest : Bytes} {s₁ : Rd κ ρ}
    (hw : s₁.rwin.Models first top' (x :: xs)) (hx : x ∉ xs) (hf : wrap x = f.header.fseq)
    (ht : s₁.took = xs.map wrap) (hn : xs.Nodup) (hd : s₁.dispatched.Sublist s₁.took)
    (hp : c.proof = some true → ∃ j, s₁.proven = some j ∧ Proof E j ∧ c.data <:+ j.data ∧
      j.src = c.src ∧ j.now = c.now)
    (hr : rest <:+ c.data) : (s₁.deliver E f c rest).Replay E first top' (x :: xs) := by
  obtain ⟨hcore, hcur⟩ := deliver_core (E := E) (s := s₁) f c rest
  have key : ∀ d, d.Sublist (f.header.fseq :: s₁.took) →
      (s₁.deliver E f c rest).core = (s₁.rwin, f.header.fseq :: s₁.took, d, s₁.jumps, s₁.proven) →
      (s₁.deliver E f c rest).Replay E first top' (x :: xs) := by
    intro d hsub hc
    simp only [core, Prod.mk.injEq] at hc
    obtain ⟨h1, h2, h3, -, h5⟩ := hc
    refine ⟨h1 ▸ hw, by rw [h2, ht, map_cons, hf], nodup_cons.2 ⟨hx, hn⟩,
      by rw [h2, h3]; exact hsub, fun c' hc' hp' => ?_⟩
    obtain ⟨e1, e2, e3, e4⟩ := hcur c' hc'
    obtain ⟨j, hj, hproof, hsuf, hsrc, hnow⟩ := hp (e4 ▸ hp')
    exact ⟨j, h5 ▸ hj, hproof, by rw [e1]; exact hr.trans hsuf, hsrc.trans e2.symm,
      hnow.trans e3.symm⟩
  rcases hcore with hc | hc
  · exact key _ (hd.cons _) hc
  · exact key _ (hd.cons_cons _) hc

/-- The window stays the reference's, moves forward by less than `2 ^ 31`, and by its width or more
only at a proven jump, which is recorded. -/
def Advances (E : Env ρ) (first top : Nat) (s s' : Rd κ ρ) : Prop :=
  ∃ top' xs', s'.Replay E first top' xs' ∧ top ≤ top' ∧ top' < top + 2 ^ 31 ∧
    (top + fseqWindowBits ≤ top' → ∃ c j, s.cur = some c ∧ c.data <:+ j.data ∧ j.src = c.src ∧
      j.now = c.now ∧ Proof E j)

/-- **One step** of the reader. -/
lemma Replay.step (h : s.Replay E first top xs) (ev : Ev κ) :
    Advances E first top s (s.step E ev) := by
  have still : ∀ {s' : Rd κ ρ}, s'.core = s.core → (∀ c, s'.cur = some c → s.cur = some c) →
      Advances E first top s s' := by
    intro s' hc hcur
    refine ⟨top, xs, h.same hc fun c hc hp => h.proven c (hcur c hc) hp, le_rfl, by omega, fun hle => ?_⟩
    unfold fseqWindowBits at hle
    omega
  cases ev with
  | datagram data src now rto nonce =>
    simp only [Rd.step, datagram]
    split
    · exact still rfl fun _ => id
    have fresh : ∀ {s' : Rd κ ρ}, s'.rwin = s.rwin → s'.took = s.took →
        s'.dispatched = s.dispatched → (∀ c, s'.cur = some c → c.proof = none) →
        Advances E first top s s' := by
      intro s' h1 h2 h3 h4
      refine ⟨top, xs, ⟨h1 ▸ h.window, h2 ▸ h.took, h.nodup, by rw [h2, h3]; exact h.dispatched,
        fun c hc hp => ?_⟩, le_rfl, by omega, fun hle => ?_⟩
      · rw [h4 c hc] at hp
        cases hp
      · unfold fseqWindowBits at hle
        omega
    rename_i hidle
    have hcur : s.cur = none := by
      cases hc : s.cur <;> simp_all
    split
    · split
      · obtain ⟨hr, hc⟩ := rebind_core (s := { s with
            cand := if decide (src ≠ s.peer) = true then some src else s.cand, proven := none
            clock := now })
          src now rto nonce true
        simp only [core, Prod.mk.injEq] at hr
        exact fresh hr.1 hr.2.1 hr.2.2.1 fun c h' => by rw [hc] at h'; simp [hcur] at h'
      · exact fresh rfl rfl rfl fun c h' => by simp [hcur] at h'
    · exact fresh rfl rfl rfl fun c h' => by cases h'; rfl
  | frame rto nonce =>
    simp only [Rd.step, frame]
    split
    · exact still rfl fun _ => id
    rename_i c hcur
    have done : Advances E first top s (s.finish c rto nonce) := by
      obtain ⟨h1, h2⟩ := finish_core (s := s) c rto nonce
      exact still h1 fun c' h' => by rw [h2] at h'; cases h'
    split
    · exact done
    split
    · exact done
    rename_i f rest hnext
    have hsuf := nextFrame_suffix hnext
    have hacc := accept_models (f := f.header.fseq) h.window
    have hwi := wrap_index (f := f.header.fseq) h.window
    have hold := h.proven c hcur
    split
    · -- taken where it stands
      rename_i w hv
      rw [hv] at hacc
      obtain ⟨hnot, hfirst, hlt, hm⟩ := hacc.1 rfl
      have hw : 0 < fseqWindowBits ∧ fseqWindowBits < 2 ^ 31 := by decide
      have htaken : (deliver E { s with rwin := w } f c rest).Replay E first _ _ :=
        Replay.taken hm hnot hwi h.took h.nodup h.dispatched hold hsuf
      refine ⟨_, _, htaken, by omega, by omega, fun hle => ?_⟩
      exfalso
      omega
    · -- ahead: a jump needs the datagram's proof
      rename_i hv
      rw [hv] at hacc
      obtain ⟨hge, hlt⟩ := hacc.2.2 rfl
      have hahead : (s.rwin.accept f.header.fseq).2 = .ahead := by rw [hv]
      obtain ⟨hnot, hfirst, hm⟩ := jump_models h.window hahead
      -- the evidence the datagram stands on once it is proven
      have hev : c.proof.getD (s.jumpProof E c.data c.src c.now) = true →
          ∃ j, (if c.proof.isNone then some ⟨0, c.data, c.src, c.now, s.pings, s.chal⟩
            else s.proven) = some j ∧ Proof E j ∧ c.data <:+ j.data ∧ j.src = c.src ∧
            j.now = c.now := by
        intro hp
        cases hpr : c.proof with
        | none =>
          rw [hpr] at hp
          exact ⟨_, rfl, jumpProof_spec hp 0, suffix_refl _, rfl, rfl⟩
        | some b =>
          rw [hpr] at hp
          simp only [Option.getD_some] at hp
          subst hp
          exact hold hpr
      split
      next hp =>
        obtain ⟨j, hj, hproof, hs, hsrc, hnow⟩ := hev hp
        exact ⟨s.rwin.index top f.header.fseq, s.rwin.index top f.header.fseq :: xs,
          Replay.taken hm hnot hwi h.took h.nodup h.dispatched
            (fun _ => ⟨j, hj, hproof, hs, hsrc, hnow⟩) hsuf,
          by omega, by omega, fun _ => ⟨c, j, hcur, hs, hsrc, hnow, hproof⟩⟩
      · refine ⟨top, xs, { h with proven := fun c' hc' hp' => ?_ }, le_rfl,
          by omega, fun hle => ?_⟩
        · cases hc'
          cases hp'
        · unfold fseqWindowBits at hle
          omega
    -- a duplicate or a late frame
    refine ⟨top, xs, h.same rfl fun c' hc' hp' => ?_, le_rfl, by omega, fun hle => ?_⟩
    · cases hc'
      obtain ⟨j, hj, hproof, hs, hsrc, hnow⟩ := hold hp'
      exact ⟨j, hj, hproof, hsuf.trans hs, hsrc, hnow⟩
    · unfold fseqWindowBits at hle
      omega
  | rebindLate nonce =>
    simp only [Rd.step, rebindLate]
    split
    · exact still rfl fun _ => id
    · split <;> exact still rfl fun _ => id
  | write now due | ping i nonce | pinged i | unsent | close => exact still rfl fun _ => id

omit [DecidableEq κ] in
/-- The window moved by what the newest index did. -/
lemma top_sub {s' : Rd κ ρ} {first top top' : Nat} {xs xs' : List Nat}
    (h : s.Replay E first top xs) (h' : s'.Replay E first top' xs') (hle : top ≤ top')
    (hlt : top' < top + 2 ^ 31) : (s'.rwin.top - s.rwin.top).toNat = top' - top := by
  rw [h.window.newest, h'.window.newest]
  exact toNat_wrap_sub hle (by omega)

lemma Replay.run (h : s.Replay E first top xs) (evs : List (Ev κ)) :
    ∃ xs', (runFrom (Rd.step E) s evs).Replay E first (top + s.travel E evs) xs' := by
  induction evs generalizing s top xs with
  | nil => exact ⟨xs, h⟩
  | cons ev evs ih =>
    obtain ⟨top', xs', h', hle, hlt, -⟩ := h.step ev
    obtain ⟨ys, hy⟩ := ih h'
    refine ⟨ys, ?_⟩
    rw [travel, top_sub h h' hle hlt, runFrom_cons]
    rwa [show top + (top' - top + travel E (s.step E ev) evs) = top' + travel E (s.step E ev) evs by
      omega]

end Rd

/-! ### A later jump of the same datagram -/

end Rendr.Carrier.Dg
