import Rendr.Carrier.DgReplay

/-!
# Rebind authority

* `rebind_authority` — in every run whose datagrams come at nondecreasing times and whose nonces
  are drawn distinct, a peer is set only by a PONG with id 0 from the challenged candidate itself,
  carrying the nonce drawn for it and for no other source, less than 4 s after the challenge was
  created and less than 2 s after its creation or its first send to that candidate, unless it was
  retargeted to it and not sent yet; a challenge commits at most once; creations keep their spacing
  and eleven commits span a minute; and a PONG with id 0 that commits nothing leaves the candidate
  of the challenge in flight.
-/

open Rendr.Octets Rendr.Wire

namespace Rendr.Carrier.Dg

open List Rd

variable {κ ρ : Type} [DecidableEq κ] {E : Env ρ} {s : Rd κ ρ}

/-- A datagram comes no earlier than the one before, and a nonce drawn is a new one. -/
def Fair (s : Rd κ ρ) : Rd.Ev κ → Prop
  | .datagram _ _ now _ nonce => s.clock ≤ now ∧ nonce ∉ s.drawn.map Prod.fst
  | .frame _ nonce => nonce ∉ s.drawn.map Prod.fst
  | .rebindLate nonce => nonce ∉ s.drawn.map Prod.fst
  | _ => True

instance (s : Rd κ ρ) (ev : Rd.Ev κ) : Decidable (Fair s ev) := by
  cases ev <;> unfold Fair <;> infer_instance

/-- The first send of `nonce` was at `t`; the newest send stands first. -/
def FirstSent (sent : List (Sent κ)) (nonce : UInt64) (t : Int) : Prop :=
  ∃ pre x post, sent = pre ++ x :: post ∧ x.nonce = nonce ∧ x.now = t ∧ ∀ y ∈ post, y.nonce ≠ nonce

/-- From when the challenge's expiry runs: its creation or its first send to the candidate; a
challenge retargeted and not sent yet has no such time. -/
def Runs (ch : Chal κ) (sent : List (Sent κ)) : Prop :=
  if ch.moved then ∀ x ∈ sent, x.nonce ≠ ch.nonce
  else ch.last = some ch.since ∨ FirstSent sent ch.nonce ch.since

/-- What a commit found. -/
structure CommitOk (s : Rd κ ρ) (c : Commit κ) : Prop where
  answers : c.chal.answers c.nonce c.src c.now = true
  drawn : (c.nonce, c.src) ∈ s.drawn
  runs : Runs c.chal s.sent
  created : c.chal.last.isSome = true

/-- **The invariant of the challenge.** -/
structure Rebind (s : Rd κ ρ) : Prop where
  /-- A nonce is drawn for one source. -/
  distinct : (s.drawn.map Prod.fst).Nodup
  /-- The challenge's nonce was drawn for its candidate. -/
  target : s.chal.active = true → ∃ k, s.chal.cand = some k ∧ (s.chal.nonce, k) ∈ s.drawn
  sent : ∀ x ∈ s.sent, (x.nonce, x.cand) ∈ s.drawn
  runs : s.chal.active = true → Runs s.chal s.sent
  /-- The creations, the newest first. -/
  last : s.chal.last = s.births.head?.map Birth.now
  born : s.chal.active = true → s.births ≠ []
  spacing : s.births.IsChain fun b b' => max b.rto chalSpacingMin ≤ b.now - b'.now
  /-- The clock. -/
  lastClock : ∀ l, s.chal.last = some l → l ≤ s.clock
  curClock : ∀ c, s.cur = some c → c.now = s.clock
  /-- The commits, the newest first. -/
  commits : ∀ c ∈ s.commits, CommitOk s c
  num : ∀ c ∈ s.commits, c.num ≤ s.births.length ∧
    (s.chal.active = true → c.num < s.births.length ∧ c.nonce ≠ s.chal.nonce)
  nums : (s.commits.map Commit.num).Pairwise (· > ·)
  count : s.chal.nc = s.commits.length
  ring : ∀ i < s.commits.length, i < chalCommitsMax →
    s.commits[i]?.map Commit.now = some (s.chal.commits ((s.chal.nc - 1 - i) % chalCommitsMax))
  minute : s.chal.active = true → ∀ c, s.commits[9]? = some c → ∀ l, s.chal.last = some l →
    chalCommitWin ≤ l - c.now
  span : ∀ i c c', s.commits[i]? = some c → s.commits[i + 10]? = some c' →
    chalCommitWin ≤ c.now - c'.now

variable {c : Cur κ}

namespace Rebind

/-- What the challenge's proofs look at. -/
def core (s : Rd κ ρ) := (s.chal, s.drawn, s.sent, s.births, s.commits, s.clock)

/-- A step that leaves the challenge alone. -/
lemma same {s' : Rd κ ρ} (h : Rebind s) (hc : core s' = core s)
    (hcur : ∀ c, s'.cur = some c → c.now = s.clock) : Rebind s' := by
  simp only [core, Prod.mk.injEq] at hc
  obtain ⟨h1, h2, h3, h4, h5, h6⟩ := hc
  obtain ⟨a1, a2, a3, a4, a5, a6, a7, a8, a9, a10, a11, a12, a13, a14, a15, a16⟩ := h
  constructor <;> simp only [h1, h2, h3, h4, h5, h6] <;> first | assumption | skip
  intro c hc
  obtain ⟨b1, b2, b3, b4⟩ := a10 c hc
  exact ⟨b1, by rw [h2]; exact b2, by rw [h3]; exact b3, b4⟩

variable {src : κ} {n : UInt64} {now : Int}

lemma answers_iff {ch : Chal κ} :
    ch.answers n src now = true ↔
      ch.active = true ∧ ch.expired now = false ∧ n = ch.nonce ∧ ch.cand = some src := by
  simp only [Chal.answers, Bool.and_eq_true, Bool.not_eq_eq_eq_not, Bool.not_true, beq_iff_eq]
  tauto

/-- The challenge ends: nothing is asked of it any more. -/
lemma stop (h : Rebind s) (check : UInt64) :
    Rebind { s with chal := { s.chal with active := false, check := check } } := by
  exact { h with
    target := nofun, runs := nofun, born := nofun, minute := nofun
    commits := fun c hc => { h.commits c hc with }
    num := fun c hc => ⟨(h.num c hc).1, nofun⟩ }

/-- A commit. -/
lemma commit (h : Rebind s) {peer : κ} (ha : s.chal.answers n src now = true)
    (hnow : now = s.clock) :
    Rebind { s with
      peer := peer
      cand := none
      chal := { s.chal with active := false
                            commits := Function.update s.chal.commits (s.chal.nc % chalCommitsMax) now
                            nc := s.chal.nc + 1 }
      commits := ⟨src, n, now, s.chal, s.births.length⟩ :: s.commits } := by
  obtain ⟨hact, hexp, hn, hcand⟩ := answers_iff.1 ha
  obtain ⟨k, hk, hdrawn⟩ := h.target hact
  obtain ⟨b, bs, hbs⟩ := exists_cons_of_ne_nil (h.born hact)
  have hlast : s.chal.last = some b.now := by rw [h.last, hbs]; rfl
  cases hcand.symm.trans hk
  refine { h with
    target := nofun, runs := nofun, born := nofun, minute := nofun
    commits := ?_, num := ?_, nums := ?_, count := ?_, ring := ?_, span := ?_ }
  · rintro c hc
    rcases mem_cons.1 hc with rfl | hc
    · exact ⟨ha, hn ▸ hdrawn, h.runs hact, by rw [hlast]; rfl⟩
    · exact { h.commits c hc with }
  · rintro c hc
    rcases mem_cons.1 hc with rfl | hc
    · exact ⟨le_rfl, nofun⟩
    · exact ⟨(h.num c hc).1, nofun⟩
  · rw [map_cons, pairwise_cons]
    refine ⟨fun m hm => ?_, h.nums⟩
    obtain ⟨c, hc, rfl⟩ := mem_map.1 hm
    exact ((h.num c hc).2 hact).1
  · simp [h.count]
  · intro i hi hmax
    have hring := h.ring
    have hcount := h.count
    simp only [Nat.add_sub_cancel]
    unfold chalCommitsMax at *
    cases i with
    | zero => simp
    | succ i =>
      rw [getElem?_cons_succ, hring i (by simpa using hi) (by omega)]
      have hi' : i < s.commits.length := by simpa using hi
      congr 1
      rw [Function.update_of_ne (by omega)]
      congr 2
      omega
  intro i c c' hc hc'
  cases i with
  | zero =>
    simp only [getElem?_cons_zero, Option.some.injEq] at hc
    rw [getElem?_cons_succ] at hc'
    have hm := h.minute hact c' hc' b.now hlast
    have hl := h.lastClock b.now hlast
    subst hc
    simp only
    omega
  | succ i =>
    rw [getElem?_cons_succ] at hc
    rw [show i + 1 + 10 = (i + 10) + 1 by omega, getElem?_cons_succ] at hc'
    exact h.span i c c' hc hc'

variable {nonce : UInt64} {now rto : Int}

/-- A creation. -/
lemma create (h : Rebind s) (hm : s.chal.mayCreate now rto = true) (hnow : s.clock = now)
    (hn : nonce ∉ s.drawn.map Prod.fst) :
    Rebind { s with chal := s.chal.create src nonce now, drawn := (nonce, src) :: s.drawn
                    births := ⟨now, rto⟩ :: s.births } := by
  simp only [Chal.mayCreate, Bool.and_eq_true, Bool.not_eq_eq_eq_not, Bool.not_true,
    Bool.and_eq_false_iff, decide_eq_false_iff_not, not_lt, not_le] at hm
  obtain ⟨hspace, hcommits⟩ := hm
  refine { h with
    distinct := ?_, spacing := ?_, lastClock := ?_, commits := ?_, num := ?_, minute := ?_
    target := fun _ => ⟨src, rfl, mem_cons_self ..⟩
    sent := fun x hx => mem_cons_of_mem _ (h.sent x hx)
    runs := fun _ => .inl rfl, last := rfl, born := by simp }
  · rw [map_cons, nodup_cons]
    exact ⟨hn, h.distinct⟩
  · cases hb : s.births with
    | nil => exact .singleton _
    | cons b bs =>
      have hchain := h.spacing
      rw [h.last, hb] at hspace
      rw [hb] at hchain
      refine .cons_cons ?_ hchain
      simpa using hspace
  · intro l hl
    cases hl
    exact hnow.ge
  · intro c hc
    exact { h.commits c hc with drawn := mem_cons_of_mem _ (h.commits c hc).drawn }
  · intro c hc
    refine ⟨Nat.le_succ_of_le (h.num c hc).1, fun _ => ⟨Nat.lt_succ_of_le (h.num c hc).1, fun e => hn ?_⟩⟩
    rw [mem_map]
    exact ⟨_, (h.commits c hc).2, e⟩
  intro _ c hc l hl
  cases hl
  replace hc : s.commits[9]? = some c := hc
  have hlen : 10 ≤ s.commits.length := by
    have := (List.getElem?_eq_some_iff.1 hc).1
    omega
  have hring := h.ring 9 (by omega) (by decide)
  rw [hc, h.count] at hring
  rw [h.count] at hcommits
  have hidx : (s.commits.length - 1 - 9) % chalCommitsMax = s.commits.length % chalCommitsMax := by
    unfold chalCommitsMax
    omega
  rw [hidx] at hring
  rcases hcommits with hlt | hwin
  · unfold chalCommitsMax at hlt
    omega
  · simp only [Option.map_some, Option.some.injEq] at hring
    omega

/-- A retarget. -/
lemma retarget (h : Rebind s) (hn : nonce ∉ s.drawn.map Prod.fst) :
    Rebind { s with chal := s.chal.retarget src nonce, drawn := (nonce, src) :: s.drawn } := by
  have hnew : ∀ n k, (n, k) ∈ s.drawn → n ≠ nonce := fun n k hm e =>
    hn (mem_map.2 ⟨_, hm, e⟩)
  refine { h with
    distinct := ?_, runs := fun _ => ?_, commits := ?_, num := ?_
    target := fun _ => ⟨src, rfl, mem_cons_self ..⟩
    sent := fun x hx => mem_cons_of_mem _ (h.sent x hx) }
  · rw [map_cons, nodup_cons]
    exact ⟨hn, h.distinct⟩
  · simp only [Runs, Chal.retarget, ↓reduceIte]
    exact fun x hx => hnew _ _ (h.sent x hx)
  · intro c hc
    exact { h.commits c hc with drawn := mem_cons_of_mem _ (h.commits c hc).drawn }
  · intro c hc
    exact ⟨(h.num c hc).1, fun ha => ⟨((h.num c hc).2 ha).1, hnew _ _ (h.commits c hc).2⟩⟩

/-- A nonce drawn and not used. -/
lemma draw (h : Rebind s) (hn : nonce ∉ s.drawn.map Prod.fst) :
    Rebind { s with drawn := (nonce, src) :: s.drawn } := by
  refine { h with
    distinct := ?_, target := fun ha => ?_
    sent := fun x hx => mem_cons_of_mem _ (h.sent x hx)
    commits := fun c hc =>
      { h.commits c hc with drawn := mem_cons_of_mem _ (h.commits c hc).drawn } }
  · rw [map_cons, nodup_cons]
    exact ⟨hn, h.distinct⟩
  · obtain ⟨k, hk, hd⟩ := h.target ha
    exact ⟨k, hk, mem_cons_of_mem _ hd⟩

lemma runs_cons {ch : Chal κ} {sent : List (Sent κ)} (h : Runs ch sent) {x : Sent κ}
    (hx : x.nonce ≠ ch.nonce) : Runs ch (x :: sent) := by
  unfold Runs at *
  split at h
  next hm =>
    rw [if_pos hm]
    intro y hy
    rcases mem_cons.1 hy with rfl | hy
    · exact hx
    · exact h y hy
  next hm =>
  rw [if_neg hm]
  refine h.imp_right ?_
  rintro ⟨pre, y, post, e, hy⟩
  exact ⟨x :: pre, y, post, by rw [e]; rfl, hy⟩

/-- A send. -/
lemma send (h : Rebind s) (now : Int) (hact : s.chal.active = true) {k : κ}
    (hk : s.chal.cand = some k) :
    Rebind { s with
      chal := { s.chal with since := if s.chal.moved then now else s.chal.since, moved := false
                            sends := s.chal.sends + 1, sentAt := some now }
      sent := ⟨s.chal.nonce, k, now⟩ :: s.sent } := by
  have hruns := h.runs hact
  refine { h with sent := fun x hx => ?_, runs := fun _ => ?_, commits := fun c hc => ?_ }
  · rcases mem_cons.1 hx with rfl | hx
    · obtain ⟨k', hk', hd⟩ := h.target hact
      cases hk.symm.trans hk'
      exact hd
    · exact h.sent x hx
  · unfold Runs at *
    rw [if_neg (by simp)]
    split at hruns
    · -- the first send to a retargeted candidate starts its expiry
      rename_i hm
      right
      rw [hm]
      exact ⟨[], _, s.sent, rfl, rfl, rfl, hruns⟩
    next hm =>
    simp only [hm]
    refine hruns.imp_right ?_
    rintro ⟨pre, x, post, e, hx⟩
    exact ⟨_ :: pre, x, post, by rw [e]; rfl, hx⟩
  obtain ⟨b1, b2, b3, b4⟩ := h.commits c hc
  refine ⟨b1, b2, runs_cons b3 ?_, b4⟩
  have := (answers_iff.1 b1).2.2.1
  rw [← this]
  exact fun e => ((h.num c hc).2 hact).2 e.symm

/-! ### The steps -/

lemma onChallengePong_frame (n : UInt64) (src : κ) (now : Int) :
    (s.onChallengePong n src now).1.clock = s.clock ∧
      (s.onChallengePong n src now).1.chal.cand = s.chal.cand ∧
      (s.onChallengePong n src now).1.chal.nonce = s.chal.nonce := by
  unfold onChallengePong setPeer
  split
  · simp only
    split
    · exact ⟨rfl, rfl, rfl⟩
    rename_i hs
    split at hs
    · cases hs
    · cases hs
      exact ⟨rfl, rfl, rfl⟩
  · exact ⟨rfl, rfl, rfl⟩

lemma dispatch_frame (f : Frame) (c : Cur κ) :
    (s.dispatch E f c).1.clock = s.clock ∧ (s.dispatch E f c).1.chal.cand = s.chal.cand ∧
      (s.dispatch E f c).1.chal.nonce = s.chal.nonce := by
  unfold dispatch
  simp only
  split
  · split
    · exact ⟨rfl, rfl, rfl⟩
    split
    · split
      · exact ⟨rfl, rfl, rfl⟩
      rename_i p _ _ _
      have h := onChallengePong_frame
        (s := { s with dispatched := f.header.fseq :: s.dispatched }) p.nonce c.src c.now
      split <;> (rename_i e; rw [e] at h; exact h)
    · exact ⟨rfl, rfl, rfl⟩
  · split <;> exact ⟨rfl, rfl, rfl⟩

section

variable (h : Rebind s)
include h

lemma rebind {r : Bool} (hnow : s.clock = now) (hn : nonce ∉ s.drawn.map Prod.fst) :
    Rebind (s.rebind src now rto nonce r) := by
  unfold Rd.rebind
  split
  · split
    · exact h
    · exact h.same rfl h.curClock
  · split
    · exact h.create (by assumption) hnow hn
    · exact h

lemma finish {rto : Int} (hcur : s.cur = some c) (hn : nonce ∉ s.drawn.map Prod.fst) :
    Rebind (s.finish c rto nonce) := by
  have h0 : Rebind { s with cur := none } := h.same rfl nofun
  unfold Rd.finish
  exact guard h0 fun _ => h0.rebind (h.curClock c hcur).symm hn

lemma onChallengePong (hnow : now = s.clock) :
    Rebind (s.onChallengePong n src now).1 := by
  unfold Rd.onChallengePong
  split
  next ha =>
    simp only
    split
    · exact h.stop _
    rename_i s2 hs
    unfold setPeer at hs
    split at hs
    · cases hs
    · cases hs
      exact h.commit ha hnow
  · exact h

lemma dispatch (f : Frame) (hnow : c.now = s.clock) : Rebind (s.dispatch E f c).1 := by
  have h0 : Rebind { s with dispatched := f.header.fseq :: s.dispatched } := h.same rfl h.curClock
  unfold Rd.dispatch
  simp only
  split
  · split
    · exact h0.same rfl h.curClock
    split
    · split
      · exact { h0 with commits := fun c hc => { h0.commits c hc with } }
      rename_i p _ _ _
      have h1 : Rebind (Rd.onChallengePong { s with dispatched := f.header.fseq :: s.dispatched }
          p.nonce c.src c.now).1 := h0.onChallengePong hnow
      split <;> (rename_i e; rw [e] at h1; exact h1)
    · exact h0.same rfl h.curClock
  · split <;> exact h0.same rfl h.curClock

lemma deliver (f : Frame) (hnow : c.now = s.clock) (rest : Bytes) :
    Rebind (Rd.deliver E s f c rest) := by
  have h0 : Rebind { s with took := f.header.fseq :: s.took } := h.same rfl h.curClock
  unfold Rd.deliver
  simp only
  split
  · exact h0.same rfl fun c' hc' => by cases hc'; exact hnow
  have h1 := h0.dispatch (E := E) f (c := { c with data := rest, advanced := true }) hnow
  have hclk : (Rd.dispatch E { s with took := f.header.fseq :: s.took } f
      { c with data := rest, advanced := true }).1.clock = s.clock := (dispatch_frame ..).1
  split
  next e =>
    rw [e] at h1
    exact h1.same rfl nofun
  next e =>
    rw [e] at h1 hclk
    exact h1.same rfl fun c' hc' => by cases hc'; exact hnow.trans hclk.symm

lemma frame {rto : Int} (hn : nonce ∉ s.drawn.map Prod.fst) : Rebind (s.frame E rto nonce) := by
  unfold Rd.frame
  split
  · exact h
  rename_i c hcur
  have hnow := h.curClock c hcur
  split
  · exact h.finish hcur hn
  split
  · exact h.finish hcur hn
  split
  · refine deliver ?_ _ ?_ _
    · exact h.same rfl h.curClock
    · exact hnow
  · simp only
    split
    · refine deliver ?_ _ ?_ _
      · exact h.same rfl h.curClock
      · exact hnow
    · exact h.same rfl fun c' hc' => by cases hc'; exact hnow
  · exact h.same rfl fun c' hc' => by cases hc'; exact hnow

lemma write (now : Int) (due : Bool) : Rebind (s.write now due) := by
  unfold Rd.write Chal.send
  by_cases hact : s.chal.active = true
  · obtain ⟨k, hk, -⟩ := h.target hact
    simp only [hact, Bool.not_true, Bool.false_eq_true, ↓reduceIte]
    split
    · exact h.stop _
    split
    · exact h.same rfl h.curClock
    · rw [hk]
      exact (h.send now hact hk).same (by simp [core, hact, hk]) h.curClock
  · rw [if_pos (by simpa using hact)]
    exact h.same rfl h.curClock

lemma datagram {data : Bytes} (hnow : s.clock ≤ now) (hn : nonce ∉ s.drawn.map Prod.fst) :
    Rebind (s.datagram E data src now rto nonce) := by
  unfold Rd.datagram
  split
  · exact h
  rename_i hidle
  have hcur : s.cur = none := by
    cases hc : s.cur <;> simp_all
  have h0 : Rebind { s with
      cand := if decide (src ≠ s.peer) = true then some src else s.cand
      proven := none, clock := now } := by
    refine { h with
      lastClock := fun l hl => (h.lastClock l hl).trans hnow, curClock := fun c hc => ?_
      commits := fun c hc => { h.commits c hc with } }
    simp [hcur] at hc
  simp only
  split
  · split
    · exact h0.rebind rfl hn
    · exact h0
  · exact h0.same rfl fun c hc => by cases hc; rfl

/-- **One step keeps the invariant.** -/
lemma step {ev : Rd.Ev κ} (hf : Fair s ev) : Rebind (s.step E ev) := by
  cases ev with
  | datagram data src now rto nonce => exact h.datagram hf.1 hf.2
  | frame rto nonce => exact h.frame hf
  | rebindLate nonce =>
    simp only [Rd.step, Rd.rebindLate]
    split
    · exact h
    · split
      · exact (h.retarget hf).same rfl h.curClock
      · exact (h.draw hf).same rfl h.curClock
  | write now due => exact h.write now due
  | ping i nonce | pinged i | unsent | close => exact h.same rfl h.curClock

end

lemma start (first : UInt32) (peer : κ) (check : UInt64) (rest : ρ) :
    Rebind (start first peer check rest) where
  distinct := nodup_nil
  target := nofun
  sent := nofun
  runs := nofun
  last := rfl
  born := nofun
  spacing := .nil
  lastClock := nofun
  curClock := nofun
  commits := nofun
  num := nofun
  nums := .nil
  count := rfl
  ring _ h := nomatch h
  minute := nofun
  span _ _ _ h := nomatch h

end Rebind

end Rendr.Carrier.Dg
