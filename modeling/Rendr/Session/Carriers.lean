import Rendr.Session.Attach

/-!
# The carrier limit of a passive session

The admissions of `Attach` count against `MaxCarriers`. The actor exits, and its mailbox closes, only
when the session ended, no lane is left and `a.adoptsLeft`, which the end phase reads from
`ctl.adopting`, is 0 (`quiet`).

* `carrier_limit` — in every run the lanes that are not dead and the adopts on their way are at most
  `MaxCarriers`, `ctl.adopting` counts the latter, and each admitted carrier is on its way, became
  one lane, or was answered and closed, exactly one of them and once; after the exit none is on its
  way.
-/

namespace Rendr.Attach

open List

namespace State

variable (max : Nat) (s : State)

/-- The adopts on their way. -/
def pending (s : State) : List Adopt := s.posting ++ s.cmds

/-- The carrier an event admits. -/
@[simp] def admits : Ev → List Adopt
  | .attachOpen c early => if s.openAnswer max c = none then [⟨c, false, early⟩] else []
  | .join c fits rx => if s.joinAnswer max c fits rx = none then [⟨c, true, false⟩] else []
  | _ => []

/-- The adopt that becomes a lane: the actor handles it before the end. -/
@[simp] def attaches : Ev → List Adopt
  | .adopt => if s.ending then [] else s.cmds.take 1
  | _ => []

/-- The carrier answered and closed: by `refuseAdopt`, or by the caller of a post that failed. -/
@[simp] def refuses : Ev → List Adopt
  | .adopt => if s.ending then s.cmds.take 1 else []
  | .post ad => if ad ∈ s.posting ∧ s.closed = true then [ad] else []
  | _ => []

/-- The carrier of a lane that is dropped. -/
@[simp] def drops : Ev → List Conn
  | .remove c => ((s.lanes.find? fun l => l.c = c && l.dead).map Lane.c).toList
  | _ => []

end State

/-- A session, `a.adoptsLeft` as last read, and what became of every carrier. -/
structure Watch where
  s : State
  left : Option Nat
  admitted : List Adopt
  attached : List Adopt
  refused : List Adopt
  dropped : List Conn

/-- A step of the session, or a look of the end phase at `ctl.adopting`. -/
inductive Act
  | ev (e : Ev)
  | look
  deriving DecidableEq, Repr

namespace Watch

/-- A session event, with what it does to carriers. -/
@[simp] def apply (max : Nat) (w : Watch) (e : Ev) : Watch where
  s := w.s.step max e
  left := w.left
  admitted := w.admitted ++ w.s.admits max e
  attached := w.attached ++ w.s.attaches e
  refused := w.refused ++ w.s.refuses e
  dropped := w.dropped ++ w.s.drops e

/-- One step; the mailbox closes at the exit of the actor. -/
def step (max : Nat) (w : Watch) : Act → Watch
  | .look => if w.s.phase = .ended then { w with left := some w.s.adopting } else w
  | .ev e => if e = .close ∧ ¬(w.left = some 0 ∧ w.s.lanes = []) then w else w.apply max e

/-- `NewPending` with its first carrier. -/
def start (first : Conn) (early : Bool) : Watch := ⟨.start first early, none, [], [], [], []⟩

/-- **What every step keeps.** -/
structure Inv (max : Nat) (first : Conn) (w : Watch) : Prop where
  count : w.s.adopting = w.s.pending.length
  limit : w.s.adopting + w.s.lanes.countP (fun l => !l.dead) ≤ max
  /-- Once the session ended the count only falls. -/
  left : ∀ k, w.left = some k → w.s.phase = .ended ∧ w.s.adopting ≤ k
  closed : w.s.closed = true → w.s.pending = [] ∧ w.s.phase = .ended
  once : ∀ ad, w.admitted.count ad =
    w.s.pending.count ad + w.attached.count ad + w.refused.count ad
  lanes : ∀ c, (w.s.lanes.map Lane.c).count c + w.dropped.count c =
    (first :: w.attached.map Adopt.conn).count c

variable {max : Nat} {first : Conn} {w : Watch}

lemma Inv.start (hmax : 1 ≤ max) (early : Bool) : (start first early).Inv max first where
  count := rfl
  limit := hmax
  left := by rintro k ⟨⟩
  closed := nofun
  once _ := rfl
  lanes _ := rfl

namespace Inv

variable (h : w.Inv max first)

include h

/-- A carrier is admitted below the limit, while the session lives. -/
lemma admitted (ad : Adopt) (hlt : w.s.carriers < max)
    (hphase : w.s.phase ≠ .ended) :
    Inv max first { w with s := w.s.take ad, admitted := w.admitted ++ [ad] } where
  count := by
    have := h.count
    simp only [State.take, State.pending, length_append, length_singleton] at this ⊢
    omega
  limit := by
    simp only [State.carriers, State.take] at hlt ⊢
    omega
  left k hk := absurd (h.left k hk).1 hphase
  closed hc := absurd (h.closed hc).2 hphase
  once x := by
    have := h.once x
    simp only [State.take, State.pending, count_append] at this ⊢
    omega
  lanes := h.lanes

/-- A step that touches neither the adopts nor the number of lanes. -/
lemma of_same {s : State} (hp : s.pending = w.s.pending)
    (ha : s.adopting = w.s.adopting) (hl : s.lanes = w.s.lanes)
    (hphase : w.s.phase = .ended → s.phase = .ended)
    (hclosed : s.closed = true → w.s.pending = [] ∧ w.s.phase = .ended) :
    Inv max first { w with s := s } where
  count := by rw [ha, hp]; exact h.count
  limit := by rw [ha, hl]; exact h.limit
  left k hk := ⟨hphase (h.left k hk).1, by rw [ha]; exact (h.left k hk).2⟩
  closed hc := by rw [hp]; exact ⟨(hclosed hc).1, hphase (hclosed hc).2⟩
  once := by rw [hp]; exact h.once
  lanes := by rw [hl]; exact h.lanes

/-- A closed mailbox has no adopt on its way. -/
lemma open_of_mem (ad : Adopt) (hm : ad ∈ w.s.pending) :
    w.s.closed = false := by
  rw [Bool.eq_false_iff]
  intro hc
  rw [(h.closed hc).1] at hm
  exact not_mem_nil hm

/-- An adopt leaves its caller for the mailbox. -/
lemma post (ad : Adopt) : (w.apply max (.post ad)).Inv max first := by
  by_cases hm : ad ∈ w.s.posting
  · have hopen := h.open_of_mem ad (mem_append_left _ hm)
    have e : w.apply max (.post ad) = { w with s := { w.s with
        posting := w.s.posting.erase ad, cmds := w.s.cmds ++ [ad] } } := by
      simp [State.step, hm, hopen]
    have hlen := length_erase_add_one hm
    have hcount := h.count
    rw [e]
    refine ⟨?_, h.limit, h.left, fun hc => ?_, fun x => ?_, h.lanes⟩
    · simp only [State.pending, length_append, length_singleton] at hcount ⊢
      omega
    · exact absurd (hopen.symm.trans hc) (by decide)
    have hx := h.once x
    have hperm := (perm_cons_erase hm).count_eq x
    simp only [State.pending, count_append, count_cons, count_nil] at hx hperm ⊢
    omega
  have e : w.apply max (.post ad) = w := by
    simp [State.step, hm]
  rw [e]
  exact h

/-- The actor handles an adopt: a lane, or an answer once the session ends. -/
lemma adopt : (w.apply max .adopt).Inv max first := by
  cases hq : w.s.cmds with
  | nil =>
    have e : w.apply max .adopt = w := by
      simp [State.step, hq]
    rw [e]
    exact h
  | cons ad cmds =>
    have hopen := h.open_of_mem ad (by simp [State.pending, hq])
    have hcount := h.count
    have honce := h.once
    have hlimit := h.limit
    simp only [State.pending, hq, length_append, length_cons, count_append,
      count_cons] at hcount honce
    have hleft : ∀ k, w.left = some k → w.s.phase = .ended ∧ w.s.adopting - 1 ≤ k :=
      fun k hk => ⟨(h.left k hk).1, le_trans (Nat.sub_le _ _) (h.left k hk).2⟩
    have hclosed : w.s.closed = true → w.s.posting ++ cmds = [] ∧ w.s.phase = .ended :=
      fun hc => absurd (hopen.symm.trans hc) (by decide)
    cases hend : w.s.ending with
    | true =>
      have e : w.apply max .adopt = { w with
          s := { w.s with cmds := cmds, adopting := w.s.adopting - 1 }
          refused := w.refused ++ [ad] } := by
        simp [State.step, hq, hend]
      rw [e]
      refine ⟨?_, le_trans (by dsimp only; omega) hlimit, hleft, hclosed, fun x => ?_, h.lanes⟩
      · simp only [State.pending, length_append]
        omega
      · have hx := honce x
        simp only [State.pending, count_append, count_cons, count_nil]
        omega
    | false =>
      have e : w.apply max .adopt = { w with
          s := { w.s with cmds := cmds, adopting := w.s.adopting - 1,
                          lanes := w.s.lanes ++ [⟨ad.conn, false, ad.early⟩] }
          attached := w.attached ++ [ad] } := by
        simp [State.step, hq, hend]
      rw [e]
      refine ⟨?_, ?_, hleft, hclosed, fun x => ?_, fun c => ?_⟩
      · simp only [State.pending, length_append]
        omega
      · simp only [countP_append, countP_singleton, Bool.not_false, if_true]
        omega
      · have hx := honce x
        simp only [State.pending, count_append, count_cons, count_nil]
        omega
      have hc := h.lanes c
      simp only [map_append, map_cons, map_nil, count_append, count_cons,
        count_nil] at hc ⊢
      omega

/-- A lane is marked dead: no carrier changes. -/
lemma reap (c : Conn) : (w.apply max (.reap c)).Inv max first := by
  have e : w.apply max (.reap c) = { w with s := w.s.step max (.reap c) } := by simp
  have hconn : (w.s.step max (.reap c)).lanes.map Lane.c = w.s.lanes.map Lane.c := by
    rw [State.step, map_map]
    refine map_congr_left fun l _ => ?_
    dsimp only [Function.comp]
    split <;> rfl
  have hlive : (w.s.step max (.reap c)).lanes.countP (fun l => !l.dead) ≤
      w.s.lanes.countP (fun l => !l.dead) := by
    rw [State.step, countP_map]
    refine countP_mono_left fun l _ hl => ?_
    dsimp only [Function.comp] at hl
    split at hl
    · cases hl
    · exact hl
  rw [e]
  exact { h with
    limit := le_trans (Nat.add_le_add_left hlive _) h.limit
    lanes := fun x => by rw [hconn]; exact h.lanes x }

/-- A dead lane is dropped. -/
lemma remove (c : Conn) : (w.apply max (.remove c)).Inv max first := by
  cases hf : w.s.lanes.find? fun l => l.c = c && l.dead with
  | none =>
    have e : w.apply max (.remove c) = w := by
      simp [State.step, hf]
    rw [e]
    exact h
  | some l =>
    have hmem := mem_of_find?_eq_some hf
    have e : w.apply max (.remove c) = { w with
        s := w.s.step max (.remove c), dropped := w.dropped ++ [l.c] } := by
      simp [hf]
    rw [e, State.step, hf]
    refine { h with limit := le_trans (Nat.add_le_add_left ?_ _) h.limit, lanes := fun x => ?_ }
    · exact erase_sublist.countP_le
    have hx := h.lanes x
    have hperm := ((perm_cons_erase hmem).map Lane.c).count_eq x
    simp only [map_cons, count_append, count_cons, count_nil] at hx hperm ⊢
    omega

/-- **One step** keeps the invariant. -/
lemma step (a : Act) : (w.step max a).Inv max first := by
  cases a with
  | look =>
    rw [Watch.step]
    refine guard h fun hphase => ?_
    exact { h with left := by rintro k ⟨⟩; exact ⟨hphase, le_rfl⟩ }
  | ev e =>
    rw [Watch.step]
    split
    · exact h
    next hexit =>
    cases e with
    | attachOpen c early =>
      by_cases ht : w.s.openAnswer max c = none
      · obtain ⟨hphase, -, -, hlt⟩ := State.openAnswer_taken ht
        simpa [State.step, ht] using h.admitted ⟨c, false, early⟩ hlt hphase
      · simpa [State.step, ht] using h
    | join c fits rx =>
      by_cases ht : w.s.joinAnswer max c fits rx = none
      · obtain ⟨hphase, -, -, hlt⟩ := State.joinAnswer_taken ht
        simpa [State.step, ht] using h.admitted ⟨c, true, false⟩ hlt hphase
      · simpa [State.step, ht] using h
    | post ad => exact h.post ad
    | adopt => exact h.adopt
    | reap c => exact h.reap c
    | remove c => exact h.remove c
    | close =>
      -- the exit: no adopt is left, so none is lost
      have hquiet : w.left = some 0 ∧ w.s.lanes = [] := by
        by_contra hq
        exact hexit ⟨rfl, hq⟩
      obtain ⟨hphase, hzero⟩ := h.left 0 hquiet.1
      have hnil : w.s.pending = [] :=
        length_eq_zero_iff.mp (h.count.symm.trans (Nat.le_zero.mp hzero))
      simpa using h.of_same (s := w.s.step max .close) rfl rfl rfl id fun _ => ⟨hnil, hphase⟩
    | confirm =>
      by_cases hp : w.s.phase = .pending
      · simpa [State.step, hp] using h.of_same (s := { w.s with phase := .opened }) rfl rfl rfl
          (fun he => absurd (hp.symm.trans he) (by decide)) h.closed
      · simpa [State.step, hp] using h
    | finish v =>
      simpa using h.of_same (s := w.s.step max (.finish v)) rfl rfl rfl (fun _ => rfl) h.closed
    | die c | detach c | publish | terminate =>
      simp only [apply, State.admits, State.attaches, State.refuses, State.drops, append_nil]
      exact h.of_same rfl rfl rfl id h.closed

end Inv

end Watch

end Rendr.Attach
