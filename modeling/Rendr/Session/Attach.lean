import Mathlib.Tactic
import Rendr.Lib.Run

/-!
# Attaching carriers to a passive session

`Join` and `AttachOpenEarly` (`passive.go`) check a carrier under the session lock, count it in
`ctl.adopting` and post its adopt to the mailbox; its lane appears when the actor handles the adopt
(`onAdoptLocked`, `pending.go`). A step is one lock section or one mailbox step, and the facts about a
carrier, its death and the peer's DETACH, are recorded at any moment.

* `attached_once` — where no admission meets an adopt of the same carrier or trunk that is still on
  its way, no two lanes have one identity, no two current ones are views of one trunk, and a later
  carrier of such a lane is answered BAD_REQUEST.
* `attached_twice` — the checks read the lanes only: two carriers admitted before the first adopt is
  handled are both attached.
-/

namespace Rendr.Attach

open List

/-- A carrier; `key` tells conns apart that claim one CarrierID. -/
structure Conn where
  key : Nat
  id : Nat
  handle : Nat
  mux : Bool
  deriving DecidableEq, Repr

/-- The identity of a carrier: the CarrierID, and the handle of a view. -/
def Conn.identity (c : Conn) : Nat × Option Nat := (c.id, if c.mux then some c.handle else none)

structure Lane where
  c : Conn
  /-- The lane is `LaneDead`. -/
  dead : Bool
  early : Bool
  deriving DecidableEq, Repr

/-- `adopt`: a carrier admitted by a JOIN or an OPEN. -/
structure Adopt where
  conn : Conn
  join : Bool
  early : Bool
  deriving DecidableEq, Repr

inductive Phase
  | pending
  | opened
  | ended
  deriving DecidableEq, Repr

inductive Status
  | ok
  | badRequest
  | unknownSession
  | capacity
  | goingAway
  | rejected
  deriving DecidableEq, Repr

inductive Code
  | unset
  | badValue
  | duplicateView
  | carriers
  /-- A code of the application. -/
  | app (n : Nat)
  deriving DecidableEq, Repr

structure Verdict where
  status : Status
  code : Code
  deriving DecidableEq, Repr

structure State where
  phase : Phase
  /-- `a.ending`, and the verdict of the last snapshot. -/
  ending : Bool
  verdict : Verdict
  lanes : List Lane
  adopting : Nat
  /-- Adopts counted but not posted yet, and posted ones, in order. -/
  posting : List Adopt
  cmds : List Adopt
  /-- The mailbox is closed. -/
  closed : Bool
  /-- The last dead lanes, newest last, and the dead lanes of the published snapshot. -/
  dead : List (Nat × Nat)
  snap : List (Nat × Nat)
  /-- Carriers that ended, and views that the peer detached. -/
  death : List Conn
  peerClosed : List Conn

/-- `maxDeadLanes`. -/
def maxDeadLanes : Nat := 8

/-- A lane of the given identity is the carrier's. -/
def Conn.same (c : Conn) (lid lh : Nat) : Bool := lid == c.id && (!c.mux || lh == c.handle)

namespace State

/-- `knownCarrierLocked`. -/
def known (s : State) (c : Conn) : Bool :=
  (s.lanes.any fun l => c.same l.c.id l.c.handle) || s.snap.any fun d => c.same d.1 d.2

/-- The lane is neither ended nor detached by the peer. -/
def current (s : State) (l : Lane) : Bool :=
  !l.dead && !(s.death.contains l.c) && !(s.peerClosed.contains l.c)

/-- `dupViewLocked`. -/
def dupView (s : State) (c : Conn) : Bool :=
  c.mux && s.lanes.any fun l => l.c.id == c.id && l.c != c && s.current l

/-- `carriersLocked`. -/
def carriers (s : State) : Nat := s.adopting + s.lanes.countP fun l => !l.dead

/-- The checks of `AttachOpenEarly`: the verdict for a carrier that it does not take. -/
def openAnswer (max : Nat) (s : State) (c : Conn) : Option Verdict :=
  if s.phase = .ended then some s.verdict
  else if s.known c then some ⟨.badRequest, .badValue⟩
  else if s.dupView c then some ⟨.badRequest, .duplicateView⟩
  else if max ≤ s.carriers then some ⟨.capacity, .carriers⟩
  else none

/-- The checks of `Join`: the status for a carrier that it does not take. `fits` is the check of the
mode and of the carrier's kind, `rx` that of RxNext. -/
def joinAnswer (max : Nat) (s : State) (c : Conn) (fits rx : Bool) : Option Status :=
  if s.phase = .pending then some .badRequest
  else if s.phase = .ended then some .unknownSession
  else if !fits || s.known c || s.dupView c then some .badRequest
  else if max ≤ s.carriers then some .capacity
  else if !rx then some .badRequest
  else none

/-- The carrier is admitted: its adopt is posted next. -/
def take (s : State) (ad : Adopt) : State :=
  { s with adopting := s.adopting + 1, posting := s.posting ++ [ad] }

end State

inductive Ev
  | attachOpen (c : Conn) (early : Bool)
  | join (c : Conn) (fits rx : Bool)
  /-- The post of an admitted carrier, and the adopt's handling by the actor. -/
  | post (ad : Adopt)
  | adopt
  | confirm
  /-- Facts about a carrier. -/
  | die (c : Conn)
  | detach (c : Conn)
  /-- The actor marks a lane dead, drops it, publishes a snapshot, terminates with a verdict, and
  closes its mailbox. -/
  | reap (c : Conn)
  | remove (c : Conn)
  | publish
  | terminate
  | finish (v : Verdict)
  | close
  deriving DecidableEq, Repr

namespace State

/-- One step. -/
def step (max : Nat) (s : State) : Ev → State
  | .attachOpen c early =>
    if s.openAnswer max c = none then s.take ⟨c, false, early⟩ else s
  | .join c fits rx =>
    if s.joinAnswer max c fits rx = none then s.take ⟨c, true, false⟩ else s
  | .post ad =>
    if ad ∈ s.posting then
      if s.closed then { s with posting := s.posting.erase ad }
      else { s with posting := s.posting.erase ad, cmds := s.cmds ++ [ad] }
    else s
  | .adopt =>
    match s.cmds with
    | [] => s
    | ad :: cmds =>
      if s.ending then { s with cmds := cmds, adopting := s.adopting - 1 }
      else { s with cmds := cmds, adopting := s.adopting - 1,
                    lanes := s.lanes ++ [⟨ad.conn, false, ad.early⟩] }
  | .confirm => if s.phase = .pending then { s with phase := .opened } else s
  | .die c => { s with death := c :: s.death }
  | .detach c => { s with peerClosed := c :: s.peerClosed }
  | .reap c => { s with lanes := s.lanes.map fun l => if l.c = c then { l with dead := true } else l }
  | .remove c =>
    match s.lanes.find? fun l => l.c = c && l.dead with
    | none => s
    | some l =>
      { s with
        lanes := s.lanes.erase l
        dead := (if s.dead.length = maxDeadLanes then s.dead.tail else s.dead) ++
          [(l.c.id, l.c.handle)] }
  | .publish =>
    { s with snap := ((s.lanes.filter fun l => l.dead).map fun l => (l.c.id, l.c.handle)) ++ s.dead }
  | .terminate => { s with ending := true }
  | .finish v => { s with ending := true, phase := .ended, verdict := v }
  | .close => { s with closed := true }

/-- `NewPending` with its first carrier. -/
def start (first : Conn) (early : Bool) : State where
  phase := .pending
  ending := false
  verdict := ⟨.unknownSession, .unset⟩
  lanes := [⟨first, false, early⟩]
  adopting := 0
  posting := []
  cmds := []
  closed := false
  dead := []
  snap := []
  death := []
  peerClosed := []

/-! ### Lanes and lanes to come -/

/-- The lanes, and the lanes of the adopts on their way. -/
def coming (s : State) : List Lane :=
  s.lanes ++ (s.cmds ++ s.posting).map fun ad => ⟨ad.conn, false, ad.early⟩

/-- Two lanes are of different carriers and not both current views of one trunk. -/
def Apart (s : State) (a b : Lane) : Prop :=
  a.c.identity ≠ b.c.identity ∧
    ¬(a.c.mux = true ∧ b.c.mux = true ∧ a.c.id = b.c.id ∧ s.current a = true ∧ s.current b = true)

variable {max : Nat} {s : State}

lemma Apart.symm {a b : Lane} (h : s.Apart a b) : s.Apart b a := by
  refine ⟨Ne.symm h.1, ?_⟩
  rintro ⟨h1, h2, h3, h4, h5⟩
  exact h.2 ⟨h2, h1, h3.symm, h5, h4⟩

/-- A lane of the carrier's identity makes it known. -/
lemma same_of_identity {c d : Conn} (h : c.identity = d.identity) :
    d.same c.id c.handle = true := by
  obtain ⟨hid, hh⟩ := Prod.mk.inj h
  cases hd : d.mux with
  | false => simp [Conn.same, hid, hd]
  | true =>
    rw [hd, if_pos rfl] at hh
    have hc : c.mux = true := by
      by_contra hc
      rw [if_neg hc] at hh
      cases hh
    rw [if_pos hc] at hh
    simp [Conn.same, hid, Option.some.inj hh]

variable {c : Conn} {l : Lane}

lemma known_of_lane (hl : l ∈ s.lanes) (h : l.c.identity = c.identity) :
    s.known c = true := by
  simp only [known, Bool.or_eq_true, any_eq_true]
  exact .inl ⟨l, hl, same_of_identity h⟩

lemma dupView_of_lane (hl : l ∈ s.lanes) (hc : c.mux = true) (hid : l.c.id = c.id)
    (hne : l.c ≠ c) (hcur : s.current l = true) : s.dupView c = true := by
  simp only [dupView, hc, Bool.true_and, any_eq_true]
  exact ⟨l, hl, by simp [hid, hne, hcur]⟩

/-- An admitted carrier is apart from every lane. -/
lemma apart_of_checked (hknown : s.known c = false) (hdup : s.dupView c = false) (early : Bool)
    (hl : l ∈ s.lanes) : s.Apart l ⟨c, false, early⟩ := by
  have hid : l.c.identity ≠ c.identity := by
    intro h
    rw [known_of_lane hl h] at hknown
    cases hknown
  refine ⟨hid, ?_⟩
  rintro ⟨-, h2, h3, h4, -⟩
  have hne : l.c ≠ c := fun h => hid (by rw [h])
  rw [dupView_of_lane hl h2 h3 hne h4] at hdup
  cases hdup

lemma openAnswer_taken (h : s.openAnswer max c = none) : s.phase ≠ .ended ∧
    s.known c = false ∧ s.dupView c = false ∧ s.carriers < max := by
  unfold openAnswer at h
  split_ifs at h with hphase hknown hdup hfull
  exact ⟨hphase, Bool.not_eq_true _ ▸ hknown, Bool.not_eq_true _ ▸ hdup, Nat.lt_of_not_le hfull⟩

lemma joinAnswer_taken {fits rx : Bool} (h : s.joinAnswer max c fits rx = none) :
    s.phase ≠ .ended ∧ s.known c = false ∧ s.dupView c = false ∧ s.carriers < max := by
  unfold joinAnswer at h
  split_ifs at h with hpending hphase hno hfull
  simp only [Bool.or_eq_true, not_or, Bool.not_eq_true] at hno
  exact ⟨hphase, hno.1.2, hno.2, Nat.lt_of_not_le hfull⟩

/-- The carrier is apart from every adopt on its way. -/
def Free (s : State) (c : Conn) : Prop :=
  ∀ ad ∈ s.cmds ++ s.posting, s.Apart ⟨ad.conn, false, ad.early⟩ ⟨c, false, false⟩

/-- No admission meets an adopt on its way of the same carrier or trunk. -/
def Clear (max : Nat) (s : State) : Ev → Prop
  | .attachOpen c _ => s.openAnswer max c = none → s.Free c
  | .join c fits rx => s.joinAnswer max c fits rx = none → s.Free c
  | _ => True

/-- All lanes, present and to come, are apart. -/
def Once (s : State) : Prop := s.coming.Pairwise s.Apart

/-- An admitted carrier comes to the others. -/
lemma Once.admitted (h : s.Once) {ad : Adopt} (hknown : s.known ad.conn = false)
    (hdup : s.dupView ad.conn = false) (hfree : s.Free ad.conn) : (s.take ad).Once := by
  have heq : (s.take ad).coming = s.coming ++ [⟨ad.conn, false, ad.early⟩] := by
    simp [coming, take]
  unfold Once
  rw [heq, pairwise_append]
  refine ⟨h, pairwise_singleton .., fun l hl b hb => ?_⟩
  rw [mem_singleton.mp hb]
  rcases mem_append.mp hl with hl | hl
  · exact apart_of_checked hknown hdup ad.early hl
  · obtain ⟨ad', had', rfl⟩ := mem_map.mp hl
    exact hfree ad' had'

/-- Fewer lanes, and fewer current ones, stay apart. -/
lemma Once.shrink (h : s.Once) {s' : State} (hsub : s'.coming.Sublist s.coming)
    (hcur : ∀ l, s'.current l = true → s.current l = true) : s'.Once := by
  refine (h.sublist hsub).imp fun {a b} hab => ⟨hab.1, ?_⟩
  rintro ⟨h1, h2, h3, h4, h5⟩
  exact hab.2 ⟨h1, h2, h3, hcur a h4, hcur b h5⟩

/-- A lane is marked dead. -/
lemma Once.reap (h : s.Once) (c : Conn) : (s.step max (.reap c)).Once := by
  have hmark : ∀ l : Lane, (if l.c = c then { l with dead := true } else l).c = l.c ∧
      (s.current (if l.c = c then { l with dead := true } else l) = true →
        s.current l = true) := by
    intro l
    split
    · refine ⟨rfl, fun hl => ?_⟩
      simp [current] at hl
    · exact ⟨rfl, id⟩
  have hapart : ∀ a b : Lane, s.Apart a b →
      s.Apart (if a.c = c then { a with dead := true } else a) b ∧
      s.Apart (if a.c = c then { a with dead := true } else a)
        (if b.c = c then { b with dead := true } else b) := by
    intro a b hab
    obtain ⟨ea, ca⟩ := hmark a
    obtain ⟨eb, cb⟩ := hmark b
    constructor
    · refine ⟨by rw [ea]; exact hab.1, ?_⟩
      rw [ea]
      rintro ⟨h1, h2, h3, h4, h5⟩
      exact hab.2 ⟨h1, h2, h3, ca h4, h5⟩
    refine ⟨by rw [ea, eb]; exact hab.1, ?_⟩
    rw [ea, eb]
    rintro ⟨h1, h2, h3, h4, h5⟩
    exact hab.2 ⟨h1, h2, h3, ca h4, cb h5⟩
  unfold Once coming at *
  obtain ⟨h1, h2, h3⟩ := pairwise_append.mp h
  refine pairwise_append.mpr ⟨pairwise_map.mpr (h1.imp fun hab => (hapart _ _ hab).2), h2,
    fun a ha b hb => ?_⟩
  obtain ⟨a', ha', rfl⟩ := mem_map.mp ha
  exact (hapart a' b (h3 a' ha' b hb)).1

lemma Once.step (h : s.Once) {ev : Ev} (hc : Clear max s ev) : (s.step max ev).Once := by
  cases ev with
  | attachOpen c early =>
    rw [State.step]
    refine guard h fun ht => ?_
    obtain ⟨-, h1, h2, -⟩ := openAnswer_taken ht
    exact h.admitted h1 h2 (hc ht)
  | join c fits rx =>
    rw [State.step]
    refine guard h fun ht => ?_
    obtain ⟨-, h1, h2, -⟩ := joinAnswer_taken ht
    exact h.admitted h1 h2 (hc ht)
  | post ad =>
    rw [State.step]
    refine guard h fun hm => ?_
    split
    · refine h.shrink ?_ fun _ hl => hl
      exact ((((erase_sublist).append_left _).map _).append_left _)
    have hperm : (s.cmds ++ s.posting).Perm ((s.cmds ++ [ad]) ++ s.posting.erase ad) := by
      rw [append_assoc]
      exact (perm_cons_erase hm).append_left _
    exact (((hperm.map _).append_left s.lanes).pairwise_iff fun {_ _} hab => hab.symm).mp h
  | adopt =>
    rw [State.step]
    split
    · exact h
    rename_i ad cmds hcmds
    have hcoming : s.coming =
        s.lanes ++ ⟨ad.conn, false, ad.early⟩ :: (cmds ++ s.posting).map fun ad =>
          ⟨ad.conn, false, ad.early⟩ := by
      rw [coming, hcmds]
      rfl
    split
    · refine h.shrink ?_ fun _ hl => hl
      rw [hcoming]
      exact (sublist_cons_self ..).append_left _
    refine h.shrink ?_ fun _ hl => hl
    rw [hcoming]
    unfold coming
    rw [append_assoc]
    exact List.Sublist.refl _
  | reap c => exact h.reap c
  | remove c =>
    rw [State.step]
    split
    · exact h
    · exact h.shrink ((erase_sublist).append_right _) fun _ hl => hl
  | die c =>
    refine h.shrink (List.Sublist.refl _) fun l hl => ?_
    simp only [State.step, current, contains_cons, Bool.not_or, Bool.and_eq_true] at hl ⊢
    exact ⟨⟨hl.1.1, hl.1.2.2⟩, hl.2⟩
  | detach c =>
    refine h.shrink (List.Sublist.refl _) fun l hl => ?_
    simp only [State.step, current, contains_cons, Bool.not_or, Bool.and_eq_true] at hl ⊢
    exact ⟨hl.1, hl.2.2⟩
  | confirm =>
    rw [State.step]
    split <;> exact h
  | publish | terminate | finish v | close => exact h

/-! ### Every run -/

/-- **A carrier is attached once.** In every run whose admissions meet no adopt on its way of the
same carrier or, with a current view, of the same trunk: no two lanes have one identity, and no two
current ones are views of one trunk. A later carrier of a lane's identity, or a second view beside a
current one, is answered BAD_REQUEST while the session has not ended. -/
theorem attached_once (max : Nat) (first : Conn) (early : Bool) (evs : List Ev)
    (hclear : Along (State.step max) (Clear max) (start first early) evs) :
    let s := runFrom (State.step max) (start first early) evs
    (s.lanes.Pairwise fun a b => a.c.identity ≠ b.c.identity ∧
      ¬(a.c.mux = true ∧ b.c.mux = true ∧ a.c.id = b.c.id ∧
        s.current a = true ∧ s.current b = true)) ∧
    ∀ c, ∀ l ∈ s.lanes, (l.c.identity = c.identity ∨
        c.mux = true ∧ l.c.id = c.id ∧ s.current l = true) → s.phase ≠ .ended →
      (∃ code, s.openAnswer max c = some ⟨.badRequest, code⟩) ∧
        ∀ fits rx, s.joinAnswer max c fits rx = some .badRequest := by
  intro s
  have h : s.Once :=
    runFrom_along Once (pairwise_singleton ..) (fun _ _ hc h => h.step hc) hclear
  refine ⟨(pairwise_append.mp h).1, fun c l hl hsame hphase => ?_⟩
  -- a second view on another handle is a duplicate view, any other carrier is known
  have hcheck : s.known c = true ∨ s.dupView c = true := by
    by_cases hid : l.c.identity = c.identity
    · exact .inl (known_of_lane hl hid)
    · obtain ⟨hm, hi, hcur⟩ := hsame.resolve_left hid
      exact .inr (dupView_of_lane hl hm hi (fun h => hid (by rw [h])) hcur)
  constructor
  · rw [openAnswer, if_neg hphase]
    by_cases hk : s.known c = true
    · exact ⟨.badValue, if_pos hk⟩
    · rw [if_neg hk, if_pos (hcheck.resolve_left hk)]
      exact ⟨.duplicateView, rfl⟩
  intro fits rx
  unfold joinAnswer
  split
  · rfl
  have hbad : (!fits || s.known c || s.dupView c) = true := by
    rcases hcheck with hk | hd
    · simp [hk]
    · simp [hd]
  rw [if_pos hbad]

/-- A conn, and another that claims its CarrierID. -/
def twins : Conn × Conn := (⟨1, 7, 0, false⟩, ⟨2, 7, 0, false⟩)

theorem attached_once_first :
    let s := runFrom (State.step 8) (start ⟨0, 3, 0, false⟩ false)
      [.confirm, .join twins.1 true true, .post ⟨twins.1, true, false⟩, .adopt]
    s.joinAnswer 8 twins.2 true true = some .badRequest := by
  have hclear : Along (State.step 8) (Clear 8) (start ⟨0, 3, 0, false⟩ false)
      [.confirm, .join twins.1 true true, .post ⟨twins.1, true, false⟩, .adopt] :=
    ⟨trivial, fun _ ad had => absurd had not_mem_nil, trivial, trivial, trivial⟩
  exact ((attached_once 8 ⟨0, 3, 0, false⟩ false _ hclear).2 twins.2
    ⟨twins.1, false, false⟩ (by decide) (.inl rfl) (by decide)).2 true true

/-- **Two carriers of one CarrierID.** Both JOINs are checked before the actor handles the first
adopt, and both are attached; so are two views of one trunk. -/
theorem attached_twice :
    let run := fun evs => (runFrom (State.step 8) (start ⟨0, 3, 0, false⟩ false) evs).lanes.map Lane.c
    run [.confirm, .join twins.1 true true, .join twins.2 true true, .post ⟨twins.1, true, false⟩,
      .post ⟨twins.2, true, false⟩, .adopt, .adopt] = [⟨0, 3, 0, false⟩, twins.1, twins.2] ∧
    run [.confirm, .join ⟨1, 7, 1, true⟩ true true, .join ⟨2, 7, 2, true⟩ true true,
      .post ⟨⟨1, 7, 1, true⟩, true, false⟩, .post ⟨⟨2, 7, 2, true⟩, true, false⟩, .adopt, .adopt] =
      [⟨0, 3, 0, false⟩, ⟨1, 7, 1, true⟩, ⟨2, 7, 2, true⟩] := by
  decide

end State

end Rendr.Attach
