import Rendr.Lib.Run
import Rendr.Lib.Serial
import Rendr.Session.Params
import Rendr.Wire.Payload

/-!
# SCHED: publication, admission, following

A selector dialer publishes its active carrier with the cumulative migration counts under a 32-bit
epoch; the passive stores the newest SCHED it receives, applies it later, and follows the counts.
Before it stores one it bounds the counts by the number of publications up to its epoch, which it
rebuilds from the epoch and the migrations it has followed.

The dialer's three publishing paths are modelled with what they count: an attach without an active
carrier (the opening, or the winner of a race after a loss), the loss of the active carrier with a
fallback at hand, and the planned switch. `SchedInv` ties both ends to the list of publications.

* `schedCountsFit_of_le`, `le_of_schedCountsFit` — what the admission bound means in numbers;
* `sched_follows` — an honest dialer is never refused and the passive ends at what was published.
-/

open Rendr.Octets Rendr.Wire

namespace Rendr

open List

open UInt64

/-! ### The admission bound -/

/-- `EpochNewer`. -/
def epochNewer (a b : UInt32) : Bool := seqLess b a

/-- The running comparison of `schedCountsFit`: the counts against the room left. -/
def countsWithin (room : UInt64) : List UInt64 → Bool
  | [] => true
  | n :: ns => if room < n then false else countsWithin (room - n) ns

/-- The sum of the followed counters, `none` when it does not fit a word. -/
def followedSum (acc : UInt64) : List UInt64 → Option UInt64
  | [] => some acc
  | n :: ns => if acc + n < acc then none else followedSum (acc + n) ns

/-- `schedCountsFit`: whether the counts of `sc` sum to at most the publications up to its
epoch. -/
def schedCountsFit (sc : Sched) (first : UInt32) (followed : List UInt64) : Bool :=
  match followedSum 0 followed with
  | none => true
  | some f =>
    let room := f + 1 + (sc.epoch - (first - 1) - (f + 1).toUInt32).toUInt64
    if room ≤ f then true
    else countsWithin room [sc.death, sc.quality, sc.explicit]

/-- The sum of counts, as a number. -/
def countSum (ns : List UInt64) : Nat := (ns.map toNat).sum

lemma countSum_cons (n : UInt64) (ns : List UInt64) :
    countSum (n :: ns) = n.toNat + countSum ns := by simp [countSum]

lemma countsWithin_iff (room : UInt64) (ns : List UInt64) :
    countsWithin room ns = true ↔ countSum ns ≤ room.toNat := by
  induction ns generalizing room with
  | nil => simp [countsWithin, countSum]
  | cons n ns ih =>
    rw [countsWithin, countSum_cons]
    split_ifs with h
    · rw [lt_iff_toNat_lt] at h
      simp only [Bool.false_eq_true, false_iff]
      omega
    have hle : n ≤ room := UInt64.not_lt.mp h
    rw [ih, UInt64.toNat_sub_of_le _ _ hle]
    rw [le_iff_toNat_le] at hle
    omega

lemma followedSum_eq {acc : UInt64} {ns : List UInt64} (h : acc.toNat + countSum ns < 2 ^ 64) :
    ∃ f, followedSum acc ns = some f ∧ f.toNat = acc.toNat + countSum ns := by
  induction ns generalizing acc with
  | nil => exact ⟨acc, rfl, by simp [countSum]⟩
  | cons n ns ih =>
    rw [countSum_cons] at h
    have hadd : (acc + n).toNat = acc.toNat + n.toNat := by
      rw [UInt64.toNat_add, Nat.mod_eq_of_lt (by omega)]
    rw [followedSum, if_neg (by rw [lt_iff_toNat_lt, hadd]; omega), countSum_cons]
    obtain ⟨f, hf, hn⟩ := ih (by rw [hadd]; omega)
    exact ⟨f, hf, by rw [hn, hadd]; omega⟩

/-- The smallest number above `F` that is congruent to `N` modulo `2 ^ 32`, for `N` above `F`. -/
def schedRoom (F N : Nat) : Nat := F + 1 + (N - F - 1) % 2 ^ 32

variable {sc : Sched} {followed : List UInt64} {first : UInt32}

/-- The bound as a number: the smallest publication count above the followed migrations that the
epoch can stand for, in a word. -/
lemma schedCountsFit_iff {N : Nat} (hf : countSum followed < 2 ^ 64)
    (hN : sc.epoch - (first - 1) = wrap N) (hlt : countSum followed < N) :
    schedCountsFit sc first followed = true ↔ 2 ^ 64 ≤ schedRoom (countSum followed) N ∨
      countSum [sc.death, sc.quality, sc.explicit] ≤ schedRoom (countSum followed) N := by
  have h1 : (1 : UInt64).toNat = 1 := rfl
  obtain ⟨f, hsum, hfn⟩ := followedSum_eq
    (show (0 : UInt64).toNat + countSum followed < 2 ^ 64 by simpa using hf)
  rw [show (0 : UInt64).toNat = 0 from rfl, Nat.zero_add] at hfn
  generalize countSum followed = F at hf hlt hfn
  have ht : (sc.epoch - (first - 1) - (f + 1).toUInt32).toUInt64.toNat = (N - F - 1) % 2 ^ 32 := by
    rw [UInt32.toNat_toUInt64, hN, UInt32.toNat_sub, toNat_wrap, toNat_toUInt32,
      UInt64.toNat_add, hfn, h1]
    omega
  have hroom : (f + 1 + (sc.epoch - (first - 1) - (f + 1).toUInt32).toUInt64).toNat
      = schedRoom F N % 2 ^ 64 := by
    rw [UInt64.toNat_add, UInt64.toNat_add, ht, hfn, h1, schedRoom]
    omega
  have hgt : F < schedRoom F N := by unfold schedRoom; omega
  have hle : schedRoom F N ≤ F + 2 ^ 32 := by unfold schedRoom; omega
  rw [schedCountsFit, hsum]
  simp only
  by_cases hbig : 2 ^ 64 ≤ schedRoom F N
  · rw [if_pos (by rw [le_iff_toNat_le, hroom, hfn]; omega)]
    exact ⟨fun _ => Or.inl hbig, fun _ => rfl⟩
  · rw [if_neg (by rw [le_iff_toNat_le, hroom, hfn]; omega), countsWithin_iff, hroom,
      Nat.mod_eq_of_lt (by omega)]
    exact ⟨Or.inr, fun h => h.resolve_left hbig⟩

/-- Counts that do not exceed the publications pass the bound, when at most `2 ^ 32`
publications lie above the followed migrations. -/
lemma schedCountsFit_of_le {N : Nat} (hf : countSum followed < 2 ^ 64)
    (hN : sc.epoch - (first - 1) = wrap N) (hlt : countSum followed < N)
    (hnear : N ≤ countSum followed + 2 ^ 32)
    (hsum : countSum [sc.death, sc.quality, sc.explicit] ≤ N) :
    schedCountsFit sc first followed = true := by
  rw [schedCountsFit_iff hf hN hlt]
  unfold schedRoom
  exact Or.inr (by omega)

/-- Counts that pass the bound do not exceed the publications, as long as those exceed the
followed migrations. -/
lemma le_of_schedCountsFit {N : Nat} (hN : sc.epoch - (first - 1) = wrap N)
    (hlt : countSum followed < N) (hbound : N < 2 ^ 64)
    (hfit : schedCountsFit sc first followed = true) :
    countSum [sc.death, sc.quality, sc.explicit] ≤ N := by
  rw [schedCountsFit_iff (by omega) hN hlt] at hfit
  unfold schedRoom at hfit
  omega

/-! ### The dialer -/

/-- Why a SCHED was published. -/
inductive SchedCause
  | initial
  | death
  | quality
  | explicit
  deriving DecidableEq, Repr

/-- The dialer's cumulative migration counts. -/
structure MigCounts where
  death : UInt64
  quality : UInt64
  explicit : UInt64
  deriving DecidableEq, Repr

/-- `countLocked`: an initial publication counts nothing. -/
def MigCounts.count (m : MigCounts) : SchedCause → MigCounts
  | .death => { m with death := m.death + 1 }
  | .quality => { m with quality := m.quality + 1 }
  | .explicit => { m with explicit := m.explicit + 1 }
  | .initial => m

/-- The migrations counted. -/
def MigCounts.total (m : MigCounts) : Nat := countSum [m.death, m.quality, m.explicit]

/-- A selector dialer: its epoch and counts, the active carrier, and the cause of a routing loss
not yet repaired. -/
structure SchedDialer where
  epoch : UInt32
  mig : MigCounts
  active : Option UInt32
  loss : Option SchedCause
  deriving DecidableEq, Repr

/-- The dialer before its opening publication. -/
def SchedDialer.init (first : UInt32) : SchedDialer := ⟨first - 1, ⟨0, 0, 0⟩, none, none⟩

/-- A routing loss: the active carrier died (death), or retired or was closed (explicit). -/
inductive LossCause
  | death
  | explicit
  deriving DecidableEq, Repr

/-- The cause a routing loss is counted with. -/
def LossCause.sched : LossCause → SchedCause
  | .death => .death
  | .explicit => .explicit

/-- What a selector dialer does about its active carrier. Carrier IDs are never 0. -/
inductive DialEv
  /-- A carrier attaches (`attachLocked`). -/
  | attach (id : UInt32)
  /-- The planned switch (`qualitySwitchLocked`). -/
  | switch (id : UInt32)
  /-- The active carrier is lost (`lostActiveLocked`), with the usable lane that takes over. -/
  | lost (cause : LossCause) (fallback : Option UInt32)

/-- Publishing `id` as the active carrier and counting `cause`, in one critical section. -/
def SchedDialer.publish (d : SchedDialer) (id : UInt32) (cause : SchedCause) : SchedDialer :=
  { d with epoch := d.epoch + 1, active := some id, mig := d.mig.count cause }

/-- One step of the dialer, and whether it published. -/
def SchedDialer.step (d : SchedDialer) : DialEv → SchedDialer × Bool
  | .attach id =>
    if id = 0 ∨ d.active.isSome then (d, false)
    else ({ d.publish id (d.loss.getD .initial) with loss := none }, true)
  | .switch id =>
    if id = 0 ∨ d.active.isNone then (d, false) else (d.publish id .quality, true)
  | .lost cause fallback =>
    if d.active.isNone then (d, false)
    else
      match fallback with
      | some id => if id = 0 then (d, false) else (d.publish id cause.sched, true)
      | none => ({ d with active := none, loss := some cause.sched }, false)

/-- The SCHED Fill encodes: the current epoch, set and counts. -/
def SchedDialer.sched (d : SchedDialer) : Sched :=
  ⟨d.epoch, d.mig.death, d.mig.quality, d.mig.explicit, d.active.toList⟩

/-! ### The passive -/

/-- The passive's control state: the applied epoch, the newest SCHED stored, the counters it
followed, and whether an urgent ACK or PACK is due. -/
structure SchedRx where
  epoch : UInt32
  schedIn : Option Sched
  mig : MigCounts
  bump : Bool
  deriving DecidableEq, Repr

/-- Why a SCHED is a violation. -/
inductive SchedErr
  | onDialer
  | wire (e : WireErr)
  | counts
  deriving DecidableEq, Repr

/-- The passive before any SCHED. -/
def SchedRx.init (first : UInt32) : SchedRx := ⟨first - 1, none, ⟨0, 0, 0⟩, false⟩

/-- The epoch a SCHED must be newer than: that of the newest one stored or applied. -/
def SchedRx.ref (c : SchedRx) : UInt32 :=
  match c.schedIn with
  | some sc => if epochNewer c.epoch sc.epoch then c.epoch else sc.epoch
  | none => c.epoch

/-- `schedLocked`: stores the SCHED of a payload when it is newer and its counts fit. -/
def schedLocked (role : Role) (mode : Mode) (packet : Bool) (first : UInt32) (c : SchedRx)
    (p : Bytes) : Except SchedErr SchedRx :=
  if role = .dialer then .error .onDialer
  else
    match parseSched p with
    | .error e => .error (.wire e)
    | .ok sc =>
      if !epochNewer sc.epoch c.ref then
        .ok (if packet ∧ !epochNewer sc.epoch c.epoch then { c with bump := true } else c)
      else
        let followed :=
          if mode = .bond then [0, 0, 0] else [c.mig.death, c.mig.quality, c.mig.explicit]
        if !schedCountsFit sc first followed then .error .counts
        else .ok { c with schedIn := some sc }

/-- `followLocked`: a counter jumps to the dialer's count and is never lowered. -/
def follow (have' want : UInt64) : UInt64 := if want ≤ have' then have' else want

/-- `applySchedLocked`: the stored SCHED takes effect when it is newer than the applied one. -/
def applySched (mode : Mode) (c : SchedRx) : SchedRx :=
  match c.schedIn with
  | none => c
  | some sc =>
    if !epochNewer sc.epoch c.epoch then c
    else
      { c with
        epoch := sc.epoch
        mig := if mode.members then c.mig
          else ⟨follow c.mig.death sc.death, follow c.mig.quality sc.quality,
            follow c.mig.explicit sc.explicit⟩
        bump := true }

/-! ### Both ends -/

/-- Both ends, the SCHEDs published so far, and whether one was refused for its counts. `applied`
and `newest` are the publications applied and received last, counted from 1. -/
structure SchedNet where
  d : SchedDialer
  rx : SchedRx
  pubs : List Sched
  refused : Bool
  applied : Nat
  newest : Nat

/-- What happens: the dialer acts, a copy of a publication arrives (any one, any number of times),
or the passive's actor runs. -/
inductive SchedEv
  | dial (ev : DialEv)
  | deliver (k : Nat)
  | apply

def SchedNet.init (first : UInt32) : SchedNet := ⟨.init first, .init first, [], false, 0, 0⟩

/-- One step; a copy `2 ^ 31` epochs or more from what the passive holds is not delivered. -/
def SchedNet.step (packet : Bool) (first : UInt32) (n : SchedNet) : SchedEv → SchedNet
  | .dial ev =>
    let (d, published) := n.d.step ev
    { n with d := d, pubs := if published then n.pubs ++ [d.sched] else n.pubs }
  | .deliver k =>
    match n.pubs[k]? with
    | none => n
    | some sc =>
      if n.applied + 2 ^ 31 ≤ k + 1 ∨ k + 1 + 2 ^ 31 ≤ n.newest then n
      else
        match schedLocked .passive .selector packet first n.rx ((putSched sc).getD []) with
        | .ok rx => { n with rx := rx, newest := max n.newest (k + 1) }
        | .error _ => { n with refused := true }
  | .apply => { n with rx := applySched .selector n.rx, applied := max n.applied n.newest }

/-- The counts of the `k`-th publication, 0 before the first. -/
def countsAt (pubs : List Sched) : Nat → MigCounts
  | 0 => ⟨0, 0, 0⟩
  | k + 1 => match pubs[k]? with
    | some sc => ⟨sc.death, sc.quality, sc.explicit⟩
    | none => ⟨0, 0, 0⟩

/-- Counts that never fell between two publications. -/
def MigCounts.Le (a b : MigCounts) : Prop :=
  a.death ≤ b.death ∧ a.quality ≤ b.quality ∧ a.explicit ≤ b.explicit

/-- **The dialer against its publications**, numbered from the epoch `f` before the first. -/
structure DialInv (f : Nat) (d : SchedDialer) (pubs : List Sched) : Prop where
  epoch : d.epoch = wrap (f + pubs.length)
  /-- Every publication but the opening one counted one migration. -/
  total : d.mig.total = pubs.length - 1
  counts : d.mig = countsAt pubs pubs.length
  fresh : pubs = [] → d.active = none ∧ d.loss = none
  at' : ∀ k sc, pubs[k]? = some sc → sc.epoch = wrap (f + (k + 1)) ∧ sc.Canonical ∧
    (countsAt pubs (k + 1)).total = k
  mono : ∀ i j, i ≤ j → j ≤ pubs.length → (countsAt pubs i).Le (countsAt pubs j)
  lossCause : ∀ c, d.loss = some c → c ≠ .initial
  /-- Without an active carrier, a loss is waiting to be counted. -/
  lost : pubs ≠ [] → d.active = none → d.loss ≠ none

variable {pubs : List Sched}

lemma countsAt_append {k : Nat} (hk : k ≤ pubs.length) :
    countsAt (pubs ++ [sc]) k = countsAt pubs k := by
  cases k with
  | zero => rfl
  | succ k =>
    simp only [countsAt]
    rw [getElem?_append_left (by omega)]

lemma countsAt_last (pubs : List Sched) (sc : Sched) :
    countsAt (pubs ++ [sc]) (pubs.length + 1) = { sc with } := by
  simp [countsAt]

lemma MigCounts.total_eq (m : MigCounts) :
    m.total = m.death.toNat + m.quality.toNat + m.explicit.toNat := by
  simp [MigCounts.total, countSum]
  omega

/-- Counting one migration adds one, as long as the counters do not wrap. -/
lemma MigCounts.count_spec {m : MigCounts} {c : SchedCause} (hc : c ≠ .initial)
    (hm : m.total + 1 < 2 ^ 64) : (m.count c).total = m.total + 1 ∧ m.Le (m.count c) := by
  have h1 : (1 : UInt64).toNat = 1 := rfl
  rw [total_eq] at hm
  have hadd : ∀ x : UInt64, x.toNat ≤ m.total → (x + 1).toNat = x.toNat + 1 ∧ x ≤ x + 1 := by
    intro x hx
    rw [total_eq] at hx
    have : (x + 1).toNat = x.toNat + 1 := by
      rw [UInt64.toNat_add, h1, Nat.mod_eq_of_lt (by omega)]
    exact ⟨this, by rw [le_iff_toNat_le, this]; omega⟩
  have hd := hadd m.death (by rw [total_eq]; omega)
  have hq := hadd m.quality (by rw [total_eq]; omega)
  have hx := hadd m.explicit (by rw [total_eq]; omega)
  cases c with
  | initial => exact absurd rfl hc
  | death =>
    refine ⟨?_, hd.2, UInt64.le_refl _, UInt64.le_refl _⟩
    simp only [count, total_eq, hd.1]
    omega
  | quality =>
    refine ⟨?_, UInt64.le_refl _, hq.2, UInt64.le_refl _⟩
    simp only [count, total_eq, hq.1]
    omega
  | explicit =>
    refine ⟨?_, UInt64.le_refl _, UInt64.le_refl _, hx.2⟩
    simp only [count, total_eq, hx.1]
    omega

lemma MigCounts.Le.trans {a b c : MigCounts} (h : a.Le b) (h' : b.Le c) : a.Le c :=
  ⟨UInt64.le_trans h.1 h'.1, UInt64.le_trans h.2.1 h'.2.1, UInt64.le_trans h.2.2 h'.2.2⟩

lemma MigCounts.Le.refl (a : MigCounts) : a.Le a :=
  ⟨UInt64.le_refl _, UInt64.le_refl _, UInt64.le_refl _⟩

/-- **A publication.** The opening one counts nothing, every later one counts its cause. -/
lemma DialInv.publish {f : Nat} {d : SchedDialer} (h : DialInv f d pubs) {id : UInt32}
    (hid : id ≠ 0) {cause : SchedCause} (hlen : pubs.length < 2 ^ 64)
    (hcause : if pubs = [] then cause = .initial else cause ≠ .initial) {loss : Option SchedCause}
    (hloss : loss = none ∨ loss = d.loss) :
    DialInv f { d.publish id cause with loss := loss }
      (pubs ++ [(d.publish id cause).sched]) := by
  have htot := h.total
  -- the new counts, against the counts before
  have hnew : (d.mig.count cause).total = pubs.length ∧ d.mig.Le (d.mig.count cause) := by
    split_ifs at hcause with hnil
    · subst hcause
      subst hnil
      exact ⟨by simpa [MigCounts.count] using htot, MigCounts.Le.refl _⟩
    · have hpos : 0 < pubs.length := length_pos_iff.mpr hnil
      obtain ⟨h1, h2⟩ := d.mig.count_spec hcause (by omega)
      exact ⟨by omega, h2⟩
  have hlast := countsAt_last pubs (d.publish id cause).sched
  refine ⟨?_, ?_, ?_, fun hn => (by simp at hn), ?_, ?_, ?_, fun _ hn => (by cases hn)⟩
  · simp only [SchedDialer.publish, h.epoch, wrap_succ, length_append, length_singleton]
    rfl
  · simp only [SchedDialer.publish, length_append, length_singleton]
    omega
  · simp only [length_append, length_singleton, hlast]
    rfl
  · intro k sc hk
    rcases Nat.lt_trichotomy k pubs.length with hlt | heq | hgt
    · rw [getElem?_append_left hlt] at hk
      obtain ⟨h1, h2, h3⟩ := h.at' k sc hk
      exact ⟨h1, h2, by rw [countsAt_append (by omega)]; exact h3⟩
    · subst heq
      rw [getElem?_append_right le_rfl, Nat.sub_self] at hk
      obtain rfl := Option.some.inj hk
      refine ⟨?_, ?_, ?_⟩
      · simp only [SchedDialer.sched, SchedDialer.publish, h.epoch, wrap_succ]
        rfl
      · refine ⟨?_, ?_, ?_, ?_⟩ <;>
          simp [SchedDialer.sched, SchedDialer.publish, maxSchedIDs, hid]
      · rw [hlast]
        exact hnew.1
    · rw [getElem?_eq_none (by simp; omega)] at hk
      cases hk
  · intro i j hij hj
    simp only [length_append, length_singleton] at hj
    by_cases hjl : j ≤ pubs.length
    · rw [countsAt_append (by omega), countsAt_append hjl]
      exact h.mono i j hij hjl
    obtain rfl : j = pubs.length + 1 := by omega
    rw [hlast]
    by_cases hil : i ≤ pubs.length
    · rw [countsAt_append hil]
      have h1 := h.mono i pubs.length hil le_rfl
      rw [← h.counts] at h1
      exact h1.trans hnew.2
    · obtain rfl : i = pubs.length + 1 := by omega
      rw [hlast]
      exact MigCounts.Le.refl _
  intro c hc
  rcases hloss with hl | hl
  · simp [hl] at hc
  · simp only [hl] at hc
    exact h.lossCause c hc

lemma DialInv.init (f : Nat) (first : UInt32) (hf : first - 1 = wrap f) :
    DialInv f (.init first) [] where
  epoch := hf
  total := rfl
  counts := rfl
  fresh _ := ⟨rfl, rfl⟩
  at' k sc hk := by simp at hk
  mono i j _ hj := by
    obtain rfl : j = 0 := by simpa using hj
    obtain rfl : i = 0 := by omega
    exact MigCounts.Le.refl _
  lossCause c hc := by simp [SchedDialer.init] at hc
  lost hn := absurd rfl hn

/-- **The dialer's step** publishes at most once, with the counts its publication belongs to. -/
lemma DialInv.step {f : Nat} {d : SchedDialer} (h : DialInv f d pubs)
    (hlen : pubs.length < 2 ^ 64) (ev : DialEv) :
    DialInv f (d.step ev).1 (if (d.step ev).2 then pubs ++ [(d.step ev).1.sched] else pubs) := by
  have hopen : ∀ x, d.active = some x → pubs ≠ [] := by
    intro x hx hn
    rw [(h.fresh hn).1] at hx
    cases hx
  cases ev with
  | attach id =>
    by_cases hc : id = 0 ∨ d.active.isSome
    · rw [show d.step (.attach id) = (d, false) from if_pos hc]
      exact h
    rw [show d.step (.attach id) = ({ d.publish id (d.loss.getD .initial) with loss := none }, true)
      from if_neg hc]
    rw [not_or] at hc
    refine h.publish hc.1 hlen ?_ (Or.inl rfl)
    split_ifs with hn
    · rw [(h.fresh hn).2]
      rfl
    · obtain ⟨c, hl⟩ := Option.ne_none_iff_exists'.mp (h.lost hn (by simpa using hc.2))
      rw [hl]
      exact h.lossCause c hl
  | switch id =>
    by_cases hc : id = 0 ∨ d.active.isNone
    · rw [show d.step (.switch id) = (d, false) from if_pos hc]
      exact h
    rw [show d.step (.switch id) = (d.publish id .quality, true) from if_neg hc]
    rw [not_or] at hc
    obtain ⟨x, hx⟩ := Option.ne_none_iff_exists'.mp (by simpa using hc.2 : d.active ≠ none)
    have hcause : if pubs = [] then SchedCause.quality = .initial else
        SchedCause.quality ≠ .initial := by
      rw [if_neg (hopen x hx)]
      decide
    exact h.publish hc.1 hlen hcause (Or.inr rfl)
  | lost cause fallback =>
    by_cases hc : d.active.isNone
    · rw [show d.step (.lost cause fallback) = (d, false) from if_pos hc]
      exact h
    obtain ⟨x, hx⟩ := Option.ne_none_iff_exists'.mp (by simpa using hc : d.active ≠ none)
    have hmc : cause.sched ≠ .initial := by cases cause <;> simp [LossCause.sched]
    cases fallback with
    | none =>
      rw [show d.step (.lost cause none) = ({ d with active := none, loss := some cause.sched },
        false) from if_neg hc]
      refine ⟨h.epoch, h.total, h.counts, fun hn => absurd hn (hopen x hx), h.at', h.mono, ?_,
        fun _ _ => Option.some_ne_none _⟩
      intro c hcl
      obtain rfl := Option.some.inj hcl
      exact hmc
    | some id =>
      by_cases hid : id = 0
      · rw [show d.step (.lost cause (some id)) = (d, false) from
          (if_neg hc).trans (if_pos hid)]
        exact h
      · rw [show d.step (.lost cause (some id)) = (d.publish id cause.sched, true) from
          (if_neg hc).trans (if_neg hid)]
        exact h.publish hid hlen (by rw [if_neg (hopen x hx)]; exact hmc) (Or.inr rfl)

/-! ### Following -/

/-- **The passive against the publications.** -/
structure RxInv (f : Nat) (n : SchedNet) : Prop where
  epoch : n.rx.epoch = wrap (f + n.applied)
  applied_le : n.applied ≤ n.newest
  newest_le : n.newest ≤ n.pubs.length
  near : n.newest < n.applied + 2 ^ 31
  schedIn : n.rx.schedIn = if n.newest = 0 then none else n.pubs[n.newest - 1]?
  /-- The counters followed are the dialer's as of the applied epoch. -/
  mig : n.rx.mig = countsAt n.pubs n.applied
  refused : n.refused = false

section Follow

variable {f : Nat} {first : UInt32} {n : SchedNet}

/-- More publications change nothing for the passive. -/
lemma RxInv.extend (h : RxInv f n) (d : SchedDialer) (sc : Sched) :
    RxInv f { n with d := d, pubs := n.pubs ++ [sc] } := by
  have h1 := h.applied_le
  have h2 := h.newest_le
  refine ⟨h.epoch, h1, by simp only [length_append]; omega, h.near, ?_, ?_, h.refused⟩
  · rw [h.schedIn]
    split_ifs with h0
    · rfl
    · rw [getElem?_append_left (by simp only at h0 ⊢; omega)]
  · rw [countsAt_append (by simp only; omega)]
    exact h.mig

/-- The reference epoch is that of the newest SCHED received. -/
lemma RxInv.ref_eq (h : RxInv f n) (hd : DialInv f n.d n.pubs) : n.rx.ref = wrap (f + n.newest) := by
  have h1 := h.applied_le
  have h2 := h.newest_le
  have h3 := h.near
  unfold SchedRx.ref
  rw [h.schedIn]
  by_cases h0 : n.newest = 0
  · have : n.applied = 0 := by omega
    rw [if_pos h0, h.epoch, this, h0]
  rw [if_neg h0]
  obtain ⟨sc, hsc⟩ : ∃ sc, n.pubs[n.newest - 1]? = some sc :=
    ⟨_, getElem?_eq_getElem (by omega)⟩
  obtain ⟨he, -, -⟩ := hd.at' _ _ hsc
  have hidx : n.newest - 1 + 1 = n.newest := by omega
  rw [hidx] at he
  rw [hsc]
  simp only
  rw [he, h.epoch, epochNewer, seqLess_wrap (by omega) (by omega)]
  rw [if_neg (by simp; omega)]

/-- **A copy arrives.** It is never refused: its counts are those of its publication. -/
lemma RxInv.deliver (packet : Bool) (h : RxInv f n) (hd : DialInv f n.d n.pubs)
    (hf : first - 1 = wrap f) (hlen : n.pubs.length < 2 ^ 64) {k : Nat} (hk : n.pubs[k]? = some sc)
    (hnear : k + 1 < n.applied + 2 ^ 31) (hold : n.newest < k + 1 + 2 ^ 31) :
    ∃ rx, schedLocked .passive .selector packet first n.rx ((putSched sc).getD []) = .ok rx ∧
      RxInv f { n with rx := rx, newest := max n.newest (k + 1) } := by
  have h1 := h.applied_le
  have h2 := h.newest_le
  have h3 := h.near
  have hkl := (List.getElem?_eq_some_iff.mp hk).1
  obtain ⟨hep, hcan, htot⟩ := hd.at' k sc hk
  obtain ⟨b, hb, hparse⟩ := sched_codec.parse_put sc hcan
  have hnew : epochNewer sc.epoch n.rx.ref = decide (n.newest < k + 1) := by
    rw [h.ref_eq hd, hep, epochNewer, seqLess_wrap (by omega) (by omega)]
    simp
  unfold schedLocked
  rw [if_neg (by simp), hb, Option.getD_some, hparse]
  simp only [hnew]
  by_cases hlt : n.newest < k + 1
  · -- a newer one: its counts fit, since each publication counts one migration
    have hmig : countSum [n.rx.mig.death, n.rx.mig.quality, n.rx.mig.explicit] = n.applied - 1 := by
      rw [h.mig]
      cases ha : n.applied with
      | zero => rfl
      | succ a =>
        obtain ⟨sca, hsca⟩ : ∃ sca, n.pubs[a]? = some sca :=
          ⟨_, getElem?_eq_getElem (by omega)⟩
        exact (hd.at' a sca hsca).2.2
    have hcounts : countSum [sc.death, sc.quality, sc.explicit] = k := by
      have : countsAt n.pubs (k + 1) = { sc with } := by
        simp [countsAt, hk]
      rw [this] at htot
      exact htot
    have hN : sc.epoch - (first - 1) = wrap (k + 1) := by
      rw [hep, hf]
      apply UInt32.toNat_inj.mp
      rw [UInt32.toNat_sub, toNat_wrap, toNat_wrap, toNat_wrap]
      omega
    have hfit : schedCountsFit sc first [n.rx.mig.death, n.rx.mig.quality, n.rx.mig.explicit]
        = true :=
      schedCountsFit_of_le (by omega) hN (by omega) (by omega) (by omega)
    simp only [hlt, decide_true, Bool.not_true, Bool.false_eq_true, if_false, reduceCtorEq]
    rw [hfit]
    refine ⟨{ n.rx with schedIn := some sc }, by simp, ?_⟩
    refine ⟨h.epoch, by simp only; omega, by simp only; omega, by simp only; omega, ?_, h.mig,
      h.refused⟩
    simp only
    rw [max_eq_right (by omega), if_neg (by omega)]
    exact hk.symm
  -- a copy of the reference or an older one: ignored
  have hmax : max n.newest (k + 1) = n.newest := max_eq_left (by omega)
  simp only [hlt, decide_false, Bool.not_false, if_true]
  refine ⟨_, rfl, ?_⟩
  rw [hmax]
  split_ifs
  · exact ⟨h.epoch, h1, h2, h3, h.schedIn, h.mig, h.refused⟩
  · exact ⟨h.epoch, h1, h2, h3, h.schedIn, h.mig, h.refused⟩

lemma follow_of_le {x y : UInt64} (h : x ≤ y) : follow x y = y := by
  unfold follow
  split_ifs with hle
  · exact UInt64.le_antisymm h hle
  · rfl

/-- **The actor runs**: the passive is at the newest SCHED received, with its counts. -/
lemma RxInv.apply (h : RxInv f n) (hd : DialInv f n.d n.pubs) :
    RxInv f { n with rx := applySched .selector n.rx, applied := max n.applied n.newest } := by
  have h1 := h.applied_le
  have h2 := h.newest_le
  have h3 := h.near
  have hmax : max n.applied n.newest = n.newest := max_eq_right h1
  rw [hmax]
  have hsc := h.schedIn
  by_cases h0 : n.newest = 0
  · rw [if_pos h0] at hsc
    have ha : n.newest = n.applied := by omega
    have hsame : applySched .selector n.rx = n.rx := by simp [applySched, hsc]
    rw [hsame]
    exact ⟨by rw [ha]; exact h.epoch, le_rfl, h2, by simp only; omega, h.schedIn,
      by simp only [ha]; exact h.mig, h.refused⟩
  rw [if_neg h0] at hsc
  obtain ⟨sc, hk⟩ : ∃ sc, n.pubs[n.newest - 1]? = some sc :=
    ⟨_, getElem?_eq_getElem (by omega)⟩
  rw [hk] at hsc
  obtain ⟨hep, -, -⟩ := hd.at' _ _ hk
  have hidx : n.newest - 1 + 1 = n.newest := by omega
  rw [hidx] at hep
  have hnew : epochNewer sc.epoch n.rx.epoch = decide (n.applied < n.newest) := by
    rw [h.epoch, hep, epochNewer, seqLess_wrap (by omega) (by omega)]
    simp
  have hcounts : countsAt n.pubs n.newest = { sc with } := by
    rw [← hidx]
    simp [countsAt, hk]
  by_cases hlt : n.applied < n.newest
  · have hmono := hd.mono n.applied n.newest h1 h2
    rw [hcounts, ← h.mig] at hmono
    have happ : applySched .selector n.rx = { n.rx with
        epoch := sc.epoch, mig := { sc with }, bump := true } := by
      simp [applySched, hsc, hnew, hlt, Mode.members, follow_of_le hmono.1,
        follow_of_le hmono.2.1, follow_of_le hmono.2.2]
    rw [happ]
    refine ⟨hep, le_rfl, h2, by simp only; omega, ?_, ?_, h.refused⟩
    · simp only [hsc, if_neg h0, hk]
    · simp only [hcounts]
  have ha : n.newest = n.applied := by omega
  have hsame : applySched .selector n.rx = n.rx := by simp [applySched, hsc, hnew, hlt]
  rw [hsame]
  exact ⟨by rw [ha]; exact h.epoch, le_rfl, h2, by simp only; omega, h.schedIn,
    by simp only [ha]; exact h.mig, h.refused⟩

end Follow

/-- **Both ends**, as long as fewer than `2 ^ 64` SCHEDs were published. -/
def SchedInv (f : Nat) (n : SchedNet) : Prop :=
  n.pubs.length < 2 ^ 64 → DialInv f n.d n.pubs ∧ RxInv f n

lemma SchedInv.step {f : Nat} {packet : Bool} (hf : first - 1 = wrap f)
    {n : SchedNet} (h : SchedInv f n) (ev : SchedEv) : SchedInv f (n.step packet first ev) := by
  intro hlen
  cases ev with
  | dial ev =>
    simp only [SchedNet.step] at hlen ⊢
    have hle : n.pubs.length < 2 ^ 64 := by
      split_ifs at hlen
      · simp only [length_append, length_singleton] at hlen
        omega
      · exact hlen
    obtain ⟨hd, hrx⟩ := h hle
    have hstep := hd.step hle ev
    cases hp : (n.d.step ev).2 with
    | true =>
      rw [hp] at hstep
      exact ⟨hstep, hrx.extend _ _⟩
    | false =>
      rw [hp] at hstep
      exact ⟨hstep, { hrx with }⟩
  | deliver k =>
    have hsame : (n.step packet first (.deliver k)).pubs = n.pubs ∧
        (n.step packet first (.deliver k)).d = n.d := by
      simp only [SchedNet.step]
      split
      · exact ⟨rfl, rfl⟩
      · split_ifs
        · exact ⟨rfl, rfl⟩
        · split <;> exact ⟨rfl, rfl⟩
    rw [hsame.1] at hlen
    obtain ⟨hd, hrx⟩ := h hlen
    refine ⟨by rw [hsame.1, hsame.2]; exact hd, ?_⟩
    simp only [SchedNet.step]
    split
    · exact hrx
    rename_i sc hk
    split_ifs with hc
    · exact hrx
    rw [not_or] at hc
    obtain ⟨rx, hrx', hinv⟩ := hrx.deliver packet hd hf hlen hk
      (Nat.lt_of_not_le hc.1) (Nat.lt_of_not_le hc.2)
    rw [hrx']
    exact hinv
  | apply =>
    obtain ⟨hd, hrx⟩ := h hlen
    exact ⟨hd, hrx.apply hd⟩

lemma SchedInv.init (f : Nat) (first : UInt32) (hf : first - 1 = wrap f) :
    SchedInv f (.init first) := fun _ =>
  ⟨DialInv.init f first hf, ⟨hf, le_rfl, le_rfl, by simp [SchedNet.init], rfl, rfl, rfl⟩⟩

lemma SchedInv.run (packet : Bool) (first : UInt32) (evs : List SchedEv) :
    SchedInv (first - 1).toNat (runFrom (SchedNet.step packet first) (.init first) evs) :=
  runFrom_inv _ (SchedInv.init _ first (wrap_toNat _).symm)
    fun _ ev _ h => h.step (wrap_toNat _).symm ev

/-- A step only adds publications, and applies at most the newest SCHED received. -/
lemma SchedNet.step_mono (packet : Bool) (first : UInt32) (n : SchedNet) (ev : SchedEv) :
    n.pubs.length ≤ (n.step packet first ev).pubs.length ∧
      n.applied ≤ (n.step packet first ev).applied ∧
      (n.step packet first ev).applied ≤ max n.applied n.newest := by
  cases ev with
  | dial ev =>
    refine ⟨?_, le_rfl, le_max_left _ _⟩
    simp only [SchedNet.step]
    split_ifs <;> simp
  | deliver k =>
    simp only [SchedNet.step]
    split
    · exact ⟨le_rfl, le_rfl, le_max_left _ _⟩
    · split_ifs
      · exact ⟨le_rfl, le_rfl, le_max_left _ _⟩
      · split <;> exact ⟨le_rfl, le_rfl, le_max_left _ _⟩
  | apply => exact ⟨le_rfl, le_max_left _ _, le_rfl⟩

/-- A SCHED that was stored passed the bound. -/
lemma schedLocked_stored {packet : Bool} {c c' : SchedRx} {p : Bytes}
    (h : schedLocked .passive .selector packet first c p = .ok c') (hin : c'.schedIn = some sc)
    (hne : c.schedIn ≠ some sc) :
    schedCountsFit sc first [c.mig.death, c.mig.quality, c.mig.explicit] = true := by
  unfold schedLocked at h
  rw [if_neg (by simp)] at h
  split at h
  · cases h
  rename_i sc' hp
  simp only [reduceCtorEq, if_false] at h
  split_ifs at h with h1 h2 h3
  · cases h
    exact absurd hin hne
  · cases h
    exact absurd hin hne
  · cases h
    obtain rfl : sc' = sc := Option.some.inj hin
    simpa using h3

theorem sched_follows (packet : Bool) (first : UInt32) (evs : List SchedEv) (ev : SchedEv)
    (hlen : (runFrom (SchedNet.step packet first) (.init first) (evs ++ [ev])).pubs.length < 2 ^ 64) :
    let n := runFrom (SchedNet.step packet first) (.init first) evs
    let n' := n.step packet first ev
    -- never refused, and the applied epoch moves forward only
    n'.refused = false ∧
    (n'.rx.epoch = n.rx.epoch ∨ epochNewer n'.rx.epoch n.rx.epoch = true) ∧
    -- the passive's epoch is that of the publication it applied last, its counters the dialer's then
    n'.rx.epoch = first - 1 + UInt32.ofNat n'.applied ∧
    n'.rx.mig = countsAt n'.pubs n'.applied ∧
    -- and the actor's step brings it to the newest one received
    (ev = .apply → n'.applied = n'.newest) ∧
    -- what is stored claims no more migrations than were published up to its epoch
    (∀ (c : SchedRx) (p : Bytes) (c' : SchedRx) (sc : Sched) (N : Nat),
      schedLocked .passive .selector packet first c p = .ok c' → c'.schedIn = some sc →
      c.schedIn ≠ some sc → sc.epoch - (first - 1) = wrap N → c.mig.total < N → N < 2 ^ 64 →
      countSum [sc.death, sc.quality, sc.explicit] ≤ N) := by
  intro n n'
  have hn' : runFrom (SchedNet.step packet first) (.init first) (evs ++ [ev]) = n' := by
    rw [runFrom_append]
    rfl
  rw [hn'] at hlen
  have hf : first - 1 = wrap (first - 1).toNat := (wrap_toNat _).symm
  have hrun' : SchedInv (first - 1).toNat n' := hn' ▸ SchedInv.run packet first (evs ++ [ev])
  obtain ⟨hd', hrx'⟩ := hrun' hlen
  obtain ⟨hpubs, happ, happ'⟩ := n.step_mono packet first ev
  have hrun : SchedInv (first - 1).toNat n := SchedInv.run packet first evs
  obtain ⟨-, hrx⟩ := hrun (lt_of_le_of_lt hpubs hlen)
  have hle : n.applied ≤ n'.applied ∧ n'.applied < n.applied + 2 ^ 31 := by
    have h1 := hrx.applied_le
    have h2 := hrx.near
    exact ⟨happ, lt_of_le_of_lt happ' (by omega)⟩
  refine ⟨hrx'.refused, ?_, ?_, hrx'.mig, ?_, ?_⟩
  · rw [hrx'.epoch, hrx.epoch, epochNewer, seqLess_wrap (by omega) (by omega),
      wrap_eq_iff (by omega) (by omega), decide_eq_true_eq]
    omega
  · rw [hrx'.epoch, hf, wrap_add, toNat_wrap, Nat.mod_eq_of_lt (UInt32.toNat_lt _)]
  · rintro rfl
    have h1 := hrx.applied_le
    exact (max_eq_right h1 : max n.applied n.newest = n.newest)
  · intro c p c' sc N hok hin hne hN hlt hbound
    exact le_of_schedCountsFit hN hlt hbound (schedLocked_stored hok hin hne)

/-- An opening, a death with a fallback, and the second SCHED received before the first. -/
def schedSample : List SchedEv :=
  [.dial (.attach 7), .dial (.lost .death (some 9)), .deliver 1, .deliver 0]

theorem sched_follows_reordered :
    let n := runFrom (SchedNet.step false 0) (.init 0) (schedSample ++ [.apply])
    n.refused = false ∧ n.rx.epoch = 1 ∧ n.rx.mig = ⟨1, 0, 0⟩ := by
  intro n
  have hlen : n.pubs.length < 2 ^ 64 := by decide +kernel
  obtain ⟨h1, -, h2, h3, -, -⟩ := sched_follows false 0 schedSample .apply hlen
  have happ : (runFrom (SchedNet.step false 0) (.init 0) schedSample |>.step false 0 .apply).applied
      = 2 := by decide +kernel
  refine ⟨h1, ?_, ?_⟩
  · rw [happ] at h2
    exact h2
  · rw [happ] at h3
    exact h3.trans (by decide +kernel)

/-- A forged SCHED that names fewer deaths than the one before it makes the followed migrations
exceed the publications; the next one is then bounded by the next wrap of the epoch only. -/
theorem sched_forged_unbounded :
    let put (sc : Sched) : Bytes := (putSched sc).getD []
    let store (c : SchedRx) (sc : Sched) : SchedRx :=
      (schedLocked .passive .selector false 1 c (put sc)).toOption.getD c
    let c₁ := applySched .selector (store (.init 1) ⟨3, 3, 0, 0, [7]⟩)
    let c₂ := applySched .selector (store c₁ ⟨4, 0, 4, 0, [7]⟩)
    c₂.mig = ⟨3, 4, 0⟩ ∧
    (store c₂ ⟨5, 0, 0, 1000, [7]⟩).schedIn = some ⟨5, 0, 0, 1000, [7]⟩ ∧
    (5 : UInt32) - (1 - 1) = wrap 5 := by
  decide +kernel

end Rendr
