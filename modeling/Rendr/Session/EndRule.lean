import Rendr.Session.Ending

/-!
# A completed exchange ends cleanly

Each procedure of the actor leaves the session alone or ends it once, and the error it chooses
once our DONE was sent is `io.EOF` unless the application aborted, the offsets are exhausted or the
end was forced (`Fate`).

* `Actor.Inv` — what the end rules rely on: DONE follows the peer's FIN and the verdict, and the
  first end decision is the one that is reported.
* `done_ends_clean` — over every run: after our DONE the end is `io.EOF`, with the exceptions the
  source names, and the session ends at most once.
-/

open Rendr.Wire

namespace Rendr.Ending

open Stream

namespace Stream

/-- The order of the DONE exchange. -/
structure Ordered (st : Stream) : Prop where
  sent : st.doneSent = true → st.doneQueued = true
  flag : st.ackDone = true → st.doneQueued = true
  queued : st.doneQueued = true → st.peerFinDelivered = true
  delivered : st.peerFinDelivered = true → st.peerFinSet = true

variable {st : Stream}

lemma Ordered.peerFinCheck (h : st.Ordered) (reached : Bool) :
    (st.peerFinCheck reached).Ordered := by
  unfold Stream.peerFinCheck
  split
  · exact h
  next hc =>
    simp only [Bool.or_eq_true, Bool.not_eq_true', not_or, Bool.not_eq_false] at hc
    exact ⟨h.sent, h.flag, fun _ => rfl, fun _ => hc.1.1⟩

lemma Ordered.maybeDone (h : st.Ordered) : st.maybeDone.Ordered := by
  unfold Stream.maybeDone
  split
  · exact h
  next hc =>
    simp only [Bool.or_eq_true, Bool.not_eq_true', not_or, Bool.not_eq_false] at hc
    exact ⟨fun _ => rfl, fun _ => rfl, fun _ => hc.1.2, h.delivered⟩

lemma Ordered.fin (h : st.Ordered) (reached : Bool) : (st.fin reached).Ordered := by
  unfold Stream.fin
  split
  · exact h
  · have hset : Ordered { st with peerFinSet := true } :=
      ⟨h.sent, h.flag, h.queued, fun _ => rfl⟩
    exact hset.peerFinCheck reached

lemma Ordered.ack (h : st.Ordered) (finDelivered done : Bool) :
    (st.ack finDelivered done).Ordered := by
  unfold Stream.ack
  split
  · exact h
  have hd : (if finDelivered && !st.finAcked then
      Stream.maybeDone { st with finAcked := true } else st).Ordered := by
    exact guard h fun _ => Ordered.maybeDone { h with }
  exact guard hd fun _ => { hd with }

lemma maybeDone_doneQueued (h : st.doneQueued = true) : st.maybeDone.doneQueued = true := by
  unfold maybeDone
  split
  · exact h
  · rfl

lemma Ordered.ackPlaced (h : st.Ordered) (now : Nat) : (st.ackPlaced now).Ordered := by
  -- The DONE flag was queued before this ACK; placing FIN_DELIVERED may queue it for the next.
  unfold Stream.ackPlaced
  dsimp only
  generalize hst : (if st.ackFinDelivered && !st.finDelivSent then
    Stream.maybeDone { st with finDelivSent := true } else st) = st'
  have hd : st'.Ordered ∧ (st.ackDone = true → st'.doneQueued = true) := by
    rw [← hst]
    split
    · exact ⟨Ordered.maybeDone { h with }, fun hf => maybeDone_doneQueued (h.flag hf)⟩
    · exact ⟨h, h.flag⟩
  refine guard hd.1 fun hc => ?_
  simp only [Bool.and_eq_true] at hc
  exact { hd.1 with sent := fun _ => hd.2 hc.1 }

end Stream

namespace Actor

variable {a b : Actor} {c : Cfg} {F : Prop}

/-- A step that decides no end. -/
structure Calm (a b : Actor) : Prop where
  st : b.st = a.st
  ending : b.ending = a.ending
  endErr : b.endErr = a.endErr
  reported : b.reported = a.reported
  opened : a.opened = true → b.opened = true
  state : (a.opened = true → a.state ≠ .pending) → b.opened = true → b.state ≠ .pending

lemma Calm.rfl : Calm a a := ⟨.refl _, .refl _, .refl _, .refl _, id, id⟩

lemma Calm.trans {a₁ a₂ a₃ : Actor} (h₁ : Calm a₁ a₂) (h₂ : Calm a₂ a₃) : Calm a₁ a₃ :=
  ⟨h₂.st.trans h₁.st, h₂.ending.trans h₁.ending, h₂.endErr.trans h₁.endErr,
    h₂.reported.trans h₁.reported, h₂.opened ∘ h₁.opened, h₂.state ∘ h₁.state⟩

/-- Our DONE was sent, on an open session whose peer's FIN arrived. -/
structure Done (a : Actor) : Prop where
  sent : a.st.doneSent = true
  opened : a.opened = true
  state : a.state ≠ .pending
  fin : a.st.peerFinSet = true

lemma Calm.done (h : Calm a b) (hd : a.Done) : b.Done :=
  ⟨h.st ▸ hd.sent, h.opened hd.opened, h.state (fun _ => hd.state) (h.opened hd.opened),
    h.st ▸ hd.fin⟩

/-- The error of an end after our DONE: `io.EOF`, or the application aborted, the offsets are
exhausted, or the end was forced. -/
def Clean (F : Prop) (a : Actor) (e : Err) : Prop :=
  e = .eof ∨ a.st.abortReq.isSome = true ∨ a.st.exhausted = true ∨ F

/-- **What a procedure of the actor does.** It leaves the session alone, or ends it, cleanly once
our DONE was sent. -/
inductive Fate (F : Prop) (a a' : Actor) : Prop
  | calm (h : Calm a a')
  | ends (b : Actor) (e : Err) (rst : Option Rst) (hb : Calm a b) (h : a' = b.terminate e rst)
      (hc : a.Done → Clean F a e)

lemma Fate.rfl : Fate F a a := .calm .rfl

lemma terminate_ending (e : Err) (rst : Option Rst) : (a.terminate e rst).ending = true := by
  unfold terminate
  split
  · assumption
  · exact .refl _

/-- A procedure that runs after another, unless that one ended the session. -/
lemma Fate.andThen {a' a'' : Actor} (h : Fate F a a') (hlive : a'.ending = false → Fate F a' a'')
    (hdead : a'.ending = true → a'' = a') : Fate F a a'' := by
  cases he : a'.ending with
  | true =>
    rw [hdead he]
    exact h
  | false =>
    cases h with
    | ends b e rst hb h hc =>
      rw [h, terminate_ending] at he
      cases he
    | calm hca =>
      cases hlive he with
      | calm hcb => exact .calm (hca.trans hcb)
      | ends b e rst hb h hc =>
        refine .ends b e rst (hca.trans hb) h fun hd => ?_
        have := hc (hca.done hd)
        rwa [Clean, hca.st] at this

lemma Fate.terminate {e : Err} (rst : Option Rst) (hc : a.Done → Clean F a e) :
    Fate F a (a.terminate e rst) :=
  .ends a e rst .rfl (.refl _) hc

lemma fate_doneOr (e : Err) (rst : Option Rst) : Fate F a (a.terminate (a.doneOr e) rst) :=
  .terminate rst fun hd => .inl (by rw [doneOr, if_pos hd.sent])

/-- An end of a session that is pending, or of a dialer that has not opened. -/
lemma fate_early {e : Err} {rst : Option Rst} (hb : Calm a b)
    (hp : a.opened = false ∨ a.state = .pending) : Fate F a (b.terminate e rst) :=
  .ends b e rst hb (.refl _) fun hd => by
    rcases hp with hp | hp
    · rw [hd.opened] at hp
      cases hp
    · exact absurd hp hd.state

/-! ### The procedures -/

variable (now : Nat)

lemma onStartOpen_calm : Calm a (a.onStartOpen c now) := by
  unfold onStartOpen
  split
  · exact .rfl
  · exact ⟨.refl _, .refl _, .refl _, .refl _, id, id⟩

lemma earlyClose_fate (hp : a.opened = false) (now : Nat) : Fate F a (a.earlyClose c now) := by
  unfold earlyClose
  have hdef : Calm a { a with deferred := false } := ⟨.refl _, .refl _, .refl _, .refl _, id, id⟩
  have hopen : Calm a (onStartOpen c { a with deferred := false } now) := by
    have := onStartOpen_calm (a := { a with deferred := false }) (c := c) now
    exact { this with }
  split
  · exact .rfl
  split
  · exact fate_early hdef (.inl hp)
  dsimp only
  split
  · exact fate_early hopen (.inl hp)
  have hat : Calm a { onStartOpen c { a with deferred := false } now with
      closeAt := (onStartOpen c { a with deferred := false } now).closeAt.or
        (some (onStartOpen c { a with deferred := false } now).st.closedAt) } :=
    { hopen with }
  split
  · exact fate_early hat (.inl hp)
  · exact .calm hat

lemma earlyIdle_fate (hp : a.opened = false) (now : Nat) : Fate F a (a.earlyIdle now) := by
  unfold earlyIdle
  split
  · exact .rfl
  split
  · exact .rfl
  · exact fate_early ⟨.refl _, .refl _, .refl _, .refl _, id, id⟩ (.inl hp)

lemma onStartOpen_opened : (a.onStartOpen c now).opened = a.opened := by
  unfold onStartOpen
  split <;> exact .refl _

lemma terminate_opened (e : Err) (rst : Option Rst) :
    (a.terminate e rst).opened = a.opened := by
  unfold terminate
  split <;> exact .refl _

lemma earlyClose_opened : (a.earlyClose c now).opened = a.opened := by
  unfold earlyClose
  split
  · exact .refl _
  split
  · exact terminate_opened ..
  dsimp only
  split
  · exact (terminate_opened ..).trans (onStartOpen_opened now)
  split
  · exact (terminate_opened ..).trans (onStartOpen_opened now)
  · exact onStartOpen_opened now

lemma termination_fate : Fate F a (a.termination c now) := by
  unfold termination
  split
  next hp =>
    refine (earlyClose_fate (c := c) hp.2 now).andThen (fun _ => ?_) fun he => ?_
    · exact earlyIdle_fate ((earlyClose_opened now).trans hp.2) now
    · rw [earlyIdle, he]
      rfl
  dsimp only
  split
  · exact fate_doneOr _ _
  next hr ha => exact .terminate _ fun _ => .inr (.inl (by rw [ha]; rfl))
  -- Our DONE excludes the rules for a peer that never finished, for Linger and for idleness.
  split
  next hex => exact .terminate _ fun _ => .inr (.inr (.inl hex))
  split
  · exact .terminate _ fun _ => .inl rfl
  split
  · exact .terminate _ fun _ => .inl rfl
  split
  next hno =>
    refine .terminate _ fun hd => ?_
    simp [hd.fin] at hno
  split
  next hno =>
    refine .terminate _ fun hd => ?_
    simp [hd.sent] at hno
  refine guard .rfl fun hno => ?_
  refine .terminate _ fun hd => ?_
  simp [hd.sent] at hno

lemma endIfPeerEnded_fate : Fate F a (a.endIfPeerEnded c now) := by
  exact guard .rfl fun _ => termination_fate now

lemma withdrawn_fate (hp : a.state = .pending) : Fate F a a.withdrawn :=
  fate_early ⟨.refl _, .refl _, .refl _, .refl _, id, id⟩ (.inr hp)

lemma refusePending_fate (hp : a.state = .pending) (status : Status) (code : UInt32) :
    Fate F a (a.refusePending status code) :=
  fate_early ⟨.refl _, .refl _, .refl _, .refl _, id, id⟩ (.inr hp)

lemma peerGoAway_fate : Fate F a a.peerGoAway := by
  unfold peerGoAway
  split
  · exact .rfl
  exact guard (fate_doneOr _ _) fun hp => withdrawn_fate hp

lemma pendingFacts_fate (goAway : Bool) : Fate F a (a.pendingFacts goAway) := by
  unfold pendingFacts
  split
  · exact .rfl
  rename_i hp
  simp only [ne_eq, Bool.or_eq_true, decide_eq_true_eq, not_or, not_not] at hp
  split
  · exact withdrawn_fate hp.2
  exact guard .rfl fun _ => peerGoAway_fate

lemma pending_fate (hp : a.state = .pending) (now : Nat) : Fate F a (a.pending now) := by
  unfold pending
  split
  · exact withdrawn_fate hp
  exact guard .rfl fun _ => refusePending_fate hp _ _

lemma episodeStart_calm (t : Nat) : Calm a (a.episodeStart c t) := by
  unfold episodeStart
  split
  · exact .rfl
  · exact ⟨.refl _, .refl _, .refl _, .refl _, id, id⟩

lemma undecided_iff :
    a.undecided = true ↔ (a.ending = false ∧ a.decided = false) ∧ a.state = .pending := by
  simp [undecided]

lemma onConfirm_fate (goAway : Bool) : Fate F a (a.onConfirm c now goAway) := by
  unfold onConfirm
  refine (pendingFacts_fate goAway).andThen (fun _ => ?_) fun he => ?_
  · dsimp only
    refine guard .rfl fun _ => ?_
    have hopen : Calm (a.pendingFacts goAway)
        { a.pendingFacts goAway with
          decided := true, opened := true, openedAt := now, state := .opn } :=
      ⟨.refl _, .refl _, .refl _, .refl _, fun _ => .refl _, fun _ _ => nofun⟩
    split
    · exact .calm hopen
    · exact .calm (hopen.trans (episodeStart_calm now))
  · simp [undecided, he]

lemma onRefuse_fate (status : Status) (code : UInt32) (goAway : Bool) :
    Fate F a (a.onRefuse status code goAway) := by
  unfold onRefuse
  refine (pendingFacts_fate goAway).andThen (fun _ => ?_) fun he => ?_
  · dsimp only
    exact guard .rfl fun hu => refusePending_fate (undecided_iff.mp hu).2 status code
  · simp [undecided, he]

lemma failOpening_fate (hp : a.opened = false) (e : Err) : Fate F a (a.failOpening e) := by
  refine fate_early ?_ (.inl hp)
  exact guard .rfl fun _ => ⟨.refl _, .refl _, .refl _, .refl _, id, id⟩

/-- A shutdown forces the end. -/
lemma onShutdown_fate : Fate True a a.onShutdown := by
  unfold onShutdown
  split
  · exact .rfl
  split
  next hp => exact refusePending_fate hp.2 _ _
  split
  next hp => exact failOpening_fate hp.2 _
  · exact .terminate _ fun _ => .inr (.inr (.inr trivial))

lemma onWithdraw_fate : Fate F a a.onWithdraw := by
  exact guard .rfl fun hp => fate_early .rfl (.inl hp.2)

lemma opening_fate (hp : a.opened = false) (now : Nat) : Fate F a (a.opening now) := by
  unfold opening
  split
  · exact fate_early .rfl (.inl hp)
  exact guard .rfl fun _ => failOpening_fate hp _

lemma episodeExpiry_fate : Fate F a (a.episodeExpiry now) := by
  unfold episodeExpiry
  split
  · exact .rfl
  split
  · exact .calm ⟨.refl _, .refl _, .refl _, .refl _, id, id⟩
  split
  · exact .rfl
  · exact fate_doneOr _ _

lemma attemptFailed_fate (f : Failure) : Fate F a (a.attemptFailed f) := by
  cases f with
  | other => exact .rfl
  | version | capacity =>
    rw [attemptFailed]
    split
    · exact .rfl
    next hp => exact failOpening_fate (Bool.not_eq_true _ ▸ hp) _
  | goingAway bound =>
    rw [attemptFailed]
    split
    next hp => exact failOpening_fate (Bool.not_eq_true' _ ▸ hp) _
    exact guard .rfl fun _ => fate_doneOr _ _
  | instanceMismatch join =>
    rw [attemptFailed]
    exact guard .rfl fun _ => fate_doneOr _ _

lemma openOK_fate : Fate F a (a.openOK now) := by
  unfold openOK
  split
  · exact .calm ⟨.refl _, .refl _, .refl _, .refl _, id, id⟩
  rename_i hp
  split
  · refine .calm ⟨.refl _, .refl _, .refl _, .refl _, fun _ => .refl _, fun _ _ => ?_⟩
    split <;> nofun
  · exact fate_early .rfl (.inl (Bool.not_eq_true _ ▸ hp))

lemma openRefused_fate (status : Status) (code : UInt32) :
    Fate F a (a.openRefused status code) := by
  unfold openRefused
  split
  · exact .rfl
  rename_i hp
  have hp : a.opened = false := Bool.not_eq_true _ ▸ hp
  split
  · split
    · exact .rfl
    · exact failOpening_fate hp _
  all_goals exact failOpening_fate hp _

/-- Before our DONE an end may choose any error. -/
lemma Fate.of_notDone {a' : Actor} (h : Fate True a a') (hd : a.st.doneSent = false) :
    Fate F a a' := by
  cases h with
  | calm h => exact .calm h
  | ends b e rst hb h hc =>
    refine .ends b e rst hb h fun hdone => ?_
    rw [hdone.sent] at hd
    cases hd

lemma joinRefused_fate (status : Status) (endCode : UInt32) (closing : Bool) :
    Fate (status = .badRequest) a (a.joinRefused status endCode closing) := by
  unfold joinRefused
  split
  · split
    next hc =>
      simp only [Bool.and_eq_true, Bool.not_eq_true'] at hc
      exact onShutdown_fate.of_notDone hc.1
    exact guard (fate_doneOr _ _) fun _ => fate_doneOr _ _
  · exact .terminate _ fun _ => .inr (.inr (.inr rfl))
  · exact fate_doneOr _ _
  all_goals exact .rfl

lemma goAwayAnswer_fate (bound : Bool) : Fate F a (a.goAwayAnswer bound) := by
  unfold goAwayAnswer
  split
  next hp => exact failOpening_fate (Bool.not_eq_true' _ ▸ hp) _
  exact guard .rfl fun _ => fate_doneOr _ _

lemma act_fate : Fate F a (a.act c now) := by
  unfold act
  have h1 : Fate F a (if a.ending then a
      else if a.role = .passive ∧ a.state = .pending then a.pending now
      else a.termination c now) := by
    split
    · exact .rfl
    exact guard (termination_fate now) fun hp => pending_fate hp.2 now
  generalize (if a.ending then a
      else if a.role = .passive ∧ a.state = .pending then a.pending now
      else a.termination c now) = a₁ at h1
  have h2 : Fate F a (if !a₁.ending ∧ a₁.role = .dialer ∧ a₁.opened = false ∧ a₁.started then
      a₁.opening now else a₁) := by
    refine h1.andThen (fun _ => ?_) fun he => by simp [he]
    exact guard .rfl fun hp => opening_fate hp.2.2.1 now
  dsimp only
  generalize (if !a₁.ending ∧ a₁.role = .dialer ∧ a₁.opened = false ∧ a₁.started then
      a₁.opening now else a₁) = a₂ at h2
  refine h2.andThen (fun _ => ?_) fun he => by simp [he]
  split
  · exact .rfl
  · exact episodeExpiry_fate now

/-! ### One step -/

/-- The events that end a session whatever was exchanged: a Shutdown, and a JOIN answered
BAD_REQUEST. -/
def Ev.Forced : Ev → Prop
  | .shutdown => True
  | .joinRefused status _ _ => status = .badRequest
  | _ => False

/-- A step of the stream alone: the DONE exchange keeps its order, and only an open session sends
its DONE. -/
structure Streamed (a a' : Actor) (st : Stream) : Prop where
  eq : a' = { a with st := st }
  ordered : a.st.Ordered → st.Ordered
  sent : a.st.doneSent = true → st.doneSent = true
  opened : st.doneSent = true → a.st.doneSent = true ∨ a.opened = true
  ended : st.ended = a.st.ended
  endErr : st.endErr = a.st.endErr
  /-- Nothing the end rules read changes once the session ended. -/
  fixed : a.st.ended = true → st.abortReq = a.st.abortReq ∧ st.exhausted = a.st.exhausted

/-- A change of the stream behind a guard that an ended session does not pass. -/
lemma Streamed.of_guard {g : Bool} {st : Stream} (hg : a.st.ended = true → g = true)
    (ho : a.st.Ordered → st.Ordered) (hs : st.doneSent = a.st.doneSent)
    (he : st.ended = a.st.ended) (hr : st.endErr = a.st.endErr) :
    ∃ st', Streamed a (if g then a else { a with st := st }) st' := by
  split
  · exact ⟨a.st, rfl, id, id, .inl, rfl, rfl, fun _ => ⟨rfl, rfl⟩⟩
  next hc =>
    exact ⟨st, rfl, ho, fun h => hs.trans h, fun h => .inl (hs.symm.trans h), he, hr,
      fun h => absurd (hg h) hc⟩

lemma guard_st {g : Bool} {st : Stream} : { a with st := if g then a.st else st } =
    if g then a else { a with st := st } := by
  split <;> rfl

lemma stream_streamed {f : Stream → Stream} (ho : ∀ st : Stream, st.Ordered → (f st).Ordered)
    (hs : ∀ st : Stream, st.doneSent = true → (f st).doneSent = true)
    (he : ∀ st : Stream, (f st).ended = st.ended ∧ (f st).endErr = st.endErr) :
    ∃ st, Streamed a (a.stream f) st := by
  unfold stream
  split
  · exact ⟨a.st, rfl, id, id, .inl, rfl, rfl, fun _ => ⟨rfl, rfl⟩⟩
  rename_i hc
  simp only [Bool.or_eq_true, Bool.not_eq_true', not_or, Bool.not_eq_true,
    Bool.not_eq_false] at hc
  refine ⟨f a.st, rfl, ho a.st, hs a.st, fun _ => .inr hc.2, (he a.st).1, (he a.st).2, ?_⟩
  intro h
  rw [hc.1] at h
  cases h

/-- What a step of the DONE exchange keeps: the DONE that was sent, and the end. -/
abbrev Keeps (st st' : Stream) : Prop :=
  st'.doneSent = st.doneSent ∧ st'.ended = st.ended ∧ st'.endErr = st.endErr

lemma maybeDone_facts (st : Stream) : Keeps st st.maybeDone := by
  unfold maybeDone
  split <;> exact ⟨rfl, rfl, rfl⟩

lemma peerFinCheck_facts (st : Stream) (reached : Bool) : Keeps st (st.peerFinCheck reached) := by
  unfold peerFinCheck
  split <;> exact ⟨rfl, rfl, rfl⟩

lemma fin_facts (st : Stream) (reached : Bool) : Keeps st (st.fin reached) := by
  unfold fin
  split
  · exact ⟨rfl, rfl, rfl⟩
  · exact peerFinCheck_facts { st with peerFinSet := true } reached

lemma ack_facts (st : Stream) (finDelivered done : Bool) :
    Keeps st (st.ack finDelivered done) := by
  unfold Stream.ack
  split
  · exact ⟨rfl, rfl, rfl⟩
  have hd : ∀ b : Bool,
      Keeps st (if b then maybeDone { st with finAcked := true } else st) := by
    intro b
    cases b
    · exact ⟨rfl, rfl, rfl⟩
    · exact maybeDone_facts { st with finAcked := true }
  dsimp only
  split <;> exact hd _

lemma ackPlaced_facts (st : Stream) (now : Nat) :
    (st.doneSent = true → (st.ackPlaced now).doneSent = true) ∧
    (st.ackPlaced now).ended = st.ended ∧ (st.ackPlaced now).endErr = st.endErr := by
  unfold ackPlaced
  dsimp only
  generalize hst : (if st.ackFinDelivered && !st.finDelivSent then
    maybeDone { st with finDelivSent := true } else st) = st'
  have hd : Keeps st st' := by
    rw [← hst]
    exact guard ⟨rfl, rfl, rfl⟩ fun _ => maybeDone_facts { st with finDelivSent := true }
  split
  · exact ⟨fun _ => rfl, hd.2⟩
  · exact ⟨fun h => hd.1.trans h, hd.2⟩

/-- **What one step does.** It moves the stream alone, or it is a procedure of the actor. -/
lemma step_cases (c : Cfg) (a : Actor) (ev : Ev) :
    (∃ st, Streamed a (a.step c ev) st) ∨ Fate ev.Forced a (a.step c ev) := by
  have hcalm {a' : Actor} (h : Calm a a') : (∃ st, Streamed a a' st) ∨ Fate ev.Forced a a' :=
    .inr (.calm h)
  have hresult {f : Actor → Actor} (h : Fate ev.Forced a (f a)) :
      Fate ev.Forced a (a.result f) := by
    exact guard h fun _ => .rfl
  cases ev with
  | fin reached =>
    exact .inl (stream_streamed (fun _ h => h.fin reached)
      (fun st h => (fin_facts st reached).1.trans h) fun st => (fin_facts st reached).2)
  | ack fd dn =>
    exact .inl (stream_streamed (fun _ h => h.ack fd dn)
      (fun st h => (ack_facts st fd dn).1.trans h) fun st => (ack_facts st fd dn).2)
  | rst r =>
    refine .inl (Streamed.of_guard id ?_ ?_ ?_ ?_) <;> unfold Stream.rst <;> split
    any_goals rfl
    · exact id
    · exact fun h => { h with }
  | discarded =>
    rw [step]
    refine .inl (stream_streamed ?_ ?_ ?_) <;> intro st
    · intro h
      exact guard h fun _ => { h with }
    · intro h
      split <;> exact h
    · split <;> exact ⟨rfl, rfl⟩
  | read reached now =>
    rw [step]
    refine .inl (stream_streamed (fun st h => ?_)
      (fun st h => (peerFinCheck_facts st reached).1.trans h)
      fun st => (peerFinCheck_facts st reached).2)
    have h := h.peerFinCheck reached
    exact { h with }
  | write now | closeWrite =>
    exact .inl (Streamed.of_guard id (fun h => { h with }) rfl rfl rfl)
  | exhaust =>
    rw [step, exhaust, guard_st]
    exact .inl (Streamed.of_guard (fun h => by simp [h]) (fun h => { h with }) rfl rfl rfl)
  | close now =>
    refine .inl (Streamed.of_guard id ?_ ?_ ?_ ?_) <;> unfold close <;> split
    any_goals rfl
    · exact id
    · exact fun h => { h with }
  | abort now r =>
    rw [step, abort, guard_st]
    exact .inl (Streamed.of_guard (fun h => by simp [h]) (fun h => { h with }) rfl rfl rfl)
  | setIdle idle =>
    rw [step]
    split
    · exact hcalm .rfl
    · exact hcalm ⟨rfl, rfl, rfl, rfl, id, id⟩
  | ackPlaced now =>
    exact .inl (stream_streamed (fun _ h => h.ackPlaced now)
      (fun st h => (ackPlaced_facts st now).1 h) fun st => (ackPlaced_facts st now).2)
  | alive b => exact hcalm ⟨rfl, rfl, rfl, rfl, id, id⟩
  | adopt =>
    rw [step]
    split
    · exact hcalm .rfl
    split <;> exact hcalm ⟨rfl, rfl, rfl, rfl, id, id⟩
  | noPath t =>
    rw [step]
    split
    · exact hcalm .rfl
    · exact hcalm (episodeStart_calm t)
  | confirm now goAway =>
    rw [step]
    split
    · exact .inr (onConfirm_fate now goAway)
    · exact hcalm .rfl
  | refuse status code goAway =>
    rw [step]
    split
    · exact .inr (onRefuse_fate status code goAway)
    · exact hcalm .rfl
  | shutdown => exact .inr onShutdown_fate
  | dialCtx =>
    rw [step]
    split
    · exact hcalm ⟨rfl, rfl, rfl, rfl, id, id⟩
    · exact hcalm .rfl
  | withdraw => exact .inr onWithdraw_fate
  | startOpen now => exact hcalm (onStartOpen_calm now)
  | openOK now =>
    rw [step]
    exact .inr (hresult (openOK_fate now))
  | openRefused status code =>
    rw [step]
    exact .inr (hresult (openRefused_fate status code))
  | joinRefused status endCode closing =>
    rw [step]
    exact .inr (hresult (joinRefused_fate status endCode closing))
  | goAwayAnswer bound =>
    rw [step]
    exact .inr (hresult (goAwayAnswer_fate bound))
  | attemptFailed f =>
    rw [step]
    exact .inr (hresult (attemptFailed_fate f))
  | closeFact =>
    rw [step]
    split
    · exact hcalm ⟨rfl, rfl, rfl, rfl, id, fun _ _ => nofun⟩
    · exact hcalm .rfl
  | goAway => exact .inr peerGoAway_fate
  | peerEnded now => exact .inr (endIfPeerEnded_fate now)
  | act now => exact .inr (act_fate now)

/-! ### Runs -/

/-- **The invariant of the end.** -/
structure Inv (a : Actor) : Prop where
  ordered : a.st.Ordered
  opened : a.st.doneSent = true → a.opened = true
  state : a.opened = true → a.state ≠ .pending
  ended : a.st.ended = a.ending
  endErr : a.st.endErr = a.endErr
  /-- One end is decided and reported, or none. -/
  once : (a.ending = false ∧ a.endErr = none ∧ a.reported = []) ∨
    (a.ending = true ∧ ∃ v e, a.endErr = some e ∧ a.reported = [(v, e)])

lemma Inv.done (h : a.Inv) (hs : a.st.doneSent = true) : a.Done :=
  ⟨hs, h.opened hs, h.state (h.opened hs),
    h.ordered.delivered (h.ordered.queued (h.ordered.sent hs))⟩

lemma Inv.calm (h : a.Inv) (hc : Calm a b) : b.Inv where
  ordered := hc.st ▸ h.ordered
  opened hs := hc.opened (h.opened (hc.st ▸ hs))
  state := hc.state h.state
  ended := by rw [hc.st, hc.ending, h.ended]
  endErr := by rw [hc.st, hc.endErr, h.endErr]
  once := by
    rw [hc.ending, hc.endErr, hc.reported]
    exact h.once

lemma Inv.terminate (h : a.Inv) (e : Err) (rst : Option Rst) : (a.terminate e rst).Inv := by
  unfold Actor.terminate
  split
  · exact h
  rename_i he
  have hend : a.st.ended = false := h.ended.trans (Bool.not_eq_true _ ▸ he)
  have hrep : a.reported = [] := h.once.elim (fun hl => hl.2.2) fun hd => absurd hd.1 he
  have hst : a.st.finish e = { a.st with ended := true, endErr := some e } := by
    rw [finish, hend]
    rfl
  refine ⟨?_, ?_, fun _ => nofun, ?_, ?_, .inr ⟨rfl, ?_⟩⟩
  · dsimp only
    rw [hst]
    exact { h.ordered with }
  · dsimp only
    rw [hst]
    exact h.opened
  · dsimp only
    rw [hst]
  · dsimp only
    rw [hst]
  · exact ⟨_, e, rfl, congrArg (fun l => l ++ [(_, e)]) hrep⟩

lemma Inv.step (h : a.Inv) (ev : Ev) : (a.step c ev).Inv := by
  rcases step_cases c a ev with ⟨st, hs⟩ | hf
  · rw [hs.eq]
    exact ⟨hs.ordered h.ordered, fun hd => (hs.opened hd).elim h.opened id, h.state,
      hs.ended.trans h.ended, hs.endErr.trans h.endErr, h.once⟩
  cases hf with
  | calm hc => exact h.calm hc
  | ends b e rst hb heq _ =>
    rw [heq]
    exact (h.calm hb).terminate e rst

/-- An ended session keeps its end decision. -/
lemma Inv.step_ended (h : a.Inv) (he : a.ending = true) (ev : Ev) :
    (a.step c ev).ending = true ∧ (a.step c ev).endErr = a.endErr ∧
    (a.step c ev).reported = a.reported ∧ (a.step c ev).st.abortReq = a.st.abortReq ∧
    (a.step c ev).st.exhausted = a.st.exhausted := by
  rcases step_cases c a ev with ⟨st, hs⟩ | hf
  · rw [hs.eq]
    exact ⟨he, rfl, rfl, hs.fixed (h.ended.trans he)⟩
  have hcalm : ∀ b, Calm a b → b.ending = true ∧ b.endErr = a.endErr ∧
      b.reported = a.reported ∧ b.st.abortReq = a.st.abortReq ∧
      b.st.exhausted = a.st.exhausted := fun b hc =>
    ⟨hc.ending.trans he, hc.endErr, hc.reported, by rw [hc.st], by rw [hc.st]⟩
  cases hf with
  | calm hc => exact hcalm _ hc
  | ends b e rst hb heq _ =>
    have hb' := hcalm b hb
    rw [heq, Actor.terminate, if_pos hb'.1]
    exact hb'

/-- After our DONE a step that forces no end leaves the session or ends it cleanly. -/
lemma Inv.step_done (h : a.Inv) (hs : a.st.doneSent = true)
    (hclean : ∀ e, a.endErr = some e → Clean False a e) {ev : Ev} (hev : ¬ev.Forced) :
    (a.step c ev).st.doneSent = true ∧
    ∀ e, (a.step c ev).endErr = some e → Clean False (a.step c ev) e := by
  by_cases he : a.ending = true
  · -- Nothing changes any more about the decision.
    obtain ⟨-, h2, -, h4, h5⟩ := h.step_ended (c := c) he ev
    refine ⟨?_, fun e hee => ?_⟩
    · rcases step_cases c a ev with ⟨st, hst⟩ | hf
      · rw [hst.eq]
        exact hst.sent hs
      cases hf with
      | calm hc => rw [hc.st]; exact hs
      | ends b e rst hb heq _ =>
        rw [heq, Actor.terminate, if_pos (hb.ending.trans he), hb.st]
        exact hs
    · have := hclean e (h2 ▸ hee)
      rwa [Clean, ← h4, ← h5] at this
  have hnone : a.endErr = none := h.once.elim (fun hl => hl.2.1) fun hd => absurd hd.1 he
  rcases step_cases c a ev with ⟨st, hst⟩ | hf
  · rw [hst.eq]
    refine ⟨hst.sent hs, fun e hee => ?_⟩
    rw [hnone] at hee
    cases hee
  cases hf with
  | calm hc =>
    refine ⟨by rw [hc.st]; exact hs, fun e hee => ?_⟩
    rw [hc.endErr, hnone] at hee
    cases hee
  | ends b e rst hb heq hcl =>
    have hbe : ¬b.ending = true := by rw [hb.ending]; exact he
    have hst : (b.terminate e rst).st = { a.st with ended := true, endErr := some e } := by
      rw [Actor.terminate, if_neg hbe]
      dsimp only
      rw [finish, hb.st, h.ended, if_neg he]
    have herr : (b.terminate e rst).endErr = some e := by
      rw [Actor.terminate, if_neg hbe]
    rw [heq]
    refine ⟨by rw [hst]; exact hs, fun e' hee => ?_⟩
    rw [herr] at hee
    obtain rfl := Option.some.inj hee
    rw [Clean, hst]
    rcases hcl (h.done hs) with hc | hc | hc | hc
    · exact .inl hc
    · exact .inr (.inl hc)
    · exact .inr (.inr (.inl hc))
    · exact absurd hc hev

lemma start_inv (c : Cfg) (role : Role) (deferred : Bool) (idle now : Nat) :
    (start c role deferred idle now).Inv :=
  ⟨⟨nofun, nofun, nofun, nofun⟩, nofun, nofun, rfl, rfl, .inl ⟨rfl, rfl, rfl⟩⟩

end Actor

open Actor

/-- **A completed exchange ends cleanly.** Once a session sent its DONE, the error of the end it
decides later is `io.EOF`, unless this side called Abort or was shut down, its offset space is
exhausted or a JOIN was answered BAD_REQUEST. At most one end is decided: it is the one the stream,
the Registry and the SessionEnd event report, and no later step changes it. -/
theorem done_ends_clean (c : Cfg) (role : Role) (deferred : Bool) (idle now : Nat)
    (evs evs' : List Actor.Ev) :
    let run := runFrom (Actor.step c)
    let a := run (start c role deferred idle now) evs
    let b := run a evs'
    (a.st.doneSent = true → a.ending = false → ∀ e, b.endErr = some e →
      e = .eof ∨ b.st.abortReq.isSome = true ∨ b.st.exhausted = true ∨ ∃ ev ∈ evs', ev.Forced) ∧
    (b.st.endErr = b.endErr ∧ b.reported.map Prod.snd = b.endErr.toList) ∧
    (a.ending = true → b.endErr = a.endErr ∧ b.reported = a.reported) := by
  intro run a b
  have ha : a.Inv := runFrom_inv Inv (start_inv ..) fun s ev _ h => h.step ev
  have hb : b.Inv := runFrom_inv Inv ha fun s ev _ h => h.step ev
  refine ⟨fun hs he e hee => ?_, ⟨hb.endErr, ?_⟩, fun he => ?_⟩
  · by_cases hforced : ∃ ev ∈ evs', ev.Forced
    · exact .inr (.inr (.inr hforced))
    have hnone : a.endErr = none := ha.once.elim (fun hl => hl.2.1) fun hd => by
      rw [he] at hd
      cases hd.1
    have hrun : b.Inv ∧ b.st.doneSent = true ∧ ∀ e, b.endErr = some e → Clean False b e :=
      runFrom_inv (fun x : Actor => x.Inv ∧ x.st.doneSent = true ∧
        ∀ e, x.endErr = some e → Clean False x e)
      ⟨ha, hs, fun e h => by rw [hnone] at h; cases h⟩
      fun x ev hev h => ⟨h.1.step ev,
        h.1.step_done h.2.1 h.2.2 fun hf => hforced ⟨ev, hev, hf⟩⟩
    rcases hrun.2.2 e hee with h | h | h | h
    · exact .inl h
    · exact .inr (.inl h)
    · exact .inr (.inr (.inl h))
    · exact h.elim
  · rcases hb.once with ⟨-, h1, h2⟩ | ⟨-, v, e, h1, h2⟩ <;> rw [h1, h2] <;> rfl
  have hrun : b.Inv ∧ b.ending = true ∧ b.endErr = a.endErr ∧ b.reported = a.reported :=
    runFrom_inv (fun x : Actor => x.Inv ∧ x.ending = true ∧ x.endErr = a.endErr ∧
      x.reported = a.reported)
    ⟨ha, he, rfl, rfl⟩ fun x ev _ h => by
      obtain ⟨h1, h2, h3, -⟩ := h.1.step_ended (c := c) h.2.1 ev
      exact ⟨h.1.step ev, h1, h2.trans h.2.2.1, h3.trans h.2.2.2⟩
  exact hrun.2.2

/-- A passive session up to its DONE. -/
def exchange : List Actor.Ev :=
  [.confirm 0 false, .closeWrite, .ack true false, .fin true, .ackPlaced 1, .ackPlaced 2]

theorem done_ends_clean_rst :
    let a := runFrom (Actor.step ⟨10, 10, 10⟩) (start ⟨10, 10, 10⟩ .passive false 0 0) exchange
    let b := runFrom (Actor.step ⟨10, 10, 10⟩) a [.rst ⟨3, []⟩, .peerEnded 3]
    b.endErr = some .eof ∧
      (Err.eof = .eof ∨ b.st.abortReq.isSome = true ∨ b.st.exhausted = true ∨
        ∃ ev ∈ [Actor.Ev.rst ⟨3, []⟩, .peerEnded 3], ev.Forced) :=
  ⟨by decide +kernel,
    (done_ends_clean ⟨10, 10, 10⟩ .passive false 0 0 exchange [.rst ⟨3, []⟩, .peerEnded 3]).1
      (by decide +kernel) (by decide +kernel) .eof (by decide +kernel)⟩

end Rendr.Ending
