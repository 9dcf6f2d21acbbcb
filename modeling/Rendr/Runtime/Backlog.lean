import Rendr.Runtime.Table

/-!
# The backlogs

A reserved slot is an admission's that has yet to insert its session, to bind it or to give the slot
back; a bound slot is a pending session's.

* `BacklogOk.step` — the accounts of all backlogs are kept by every step.
* `step_order` — the accept lists keep their order.
-/

namespace Rendr.Admission

open State

open Function (update update_self update_of_ne)
open List

variable {cfg : Config} {s : State}

/-! ### One backlog -/

/-- The accounts of one Listener: the slots in use are the pending sessions', and the accept list
has the queued ones. -/
structure LnOk (ln : Listener) : Prop where
  n : ∀ k, (ln.q k).n = ln.pending.countP fun it => it.kind = k
  nodup : ∀ k, (ln.q k).list.Nodup
  queued : ∀ k x, x ∈ (ln.q k).list ↔ ⟨x, k, true⟩ ∈ ln.pending
  sess : (ln.pending.map Item.s).Nodup

variable {ln : Listener}

lemma LnOk.unique (h : LnOk ln) {a b : Item} (ha : a ∈ ln.pending) (hb : b ∈ ln.pending)
    (hs : a.s = b.s) : a = b := inj_on_of_nodup_map h.sess ha hb hs

variable {it : Item} {l : List Item}

lemma find_item {x : Nat} (h : l.find? (fun it => it.s = x) = some it) : it ∈ l ∧ it.s = x :=
  ⟨mem_of_find?_eq_some h, by simpa using find?_some h⟩

lemma countP_replace (h : it ∈ l) (b k : Bool) :
    ({ it with queued := b } :: l.erase it).countP (fun it => it.kind = k) =
      l.countP fun it => it.kind = k := by
  rw [countP_cons, countP_erase h]

lemma sess_replace {it it' : Item} (h : it ∈ l) (hs : it'.s = it.s) (hl : (l.map Item.s).Nodup) :
    ((it' :: l.erase it).map Item.s).Nodup := by
  have hperm : (l.map Item.s).Perm ((it' :: l.erase it).map Item.s) := by
    rw [map_cons, hs, ← map_cons]
    exact (perm_cons_erase h).map _
  exact hperm.nodup_iff.mp hl

lemma LnOk.mem_replace (h : LnOk ln) {it it' y : Item} :
    y ∈ it' :: ln.pending.erase it ↔ y = it' ∨ y ≠ it ∧ y ∈ ln.pending := by
  rw [mem_cons, h.sess.of_map.mem_erase_iff]

lemma updQ_n (k k' : Bool) (f : Queue → Queue) :
    ((ln.updQ k f).q k') = if k' = k then f (ln.q k) else ln.q k' := by
  unfold Listener.updQ
  by_cases h : k' = k
  · subst h
    rw [if_pos rfl]
    exact update_self ..
  · rw [if_neg h]
    exact update_of_ne h ..

/-- A reservation is taken, returned or turned into a slot elsewhere. -/
lemma LnOk.reserved (h : LnOk ln) (k : Bool) (f : Queue → Queue)
    (hf : ∀ q, (f q).n = q.n ∧ (f q).list = q.list) : LnOk (ln.updQ k f) where
  n k' := by
    rw [updQ_n]
    split
    next hk =>
      subst hk
      rw [(hf _).1]
      exact h.n k'
    · exact h.n k'
  nodup k' := by
    rw [updQ_n]
    split
    next hk =>
      subst hk
      rw [(hf _).2]
      exact h.nodup k'
    · exact h.nodup k'
  queued k' x := by
    rw [updQ_n]
    split
    next hk =>
      subst hk
      rw [(hf _).2]
      exact h.queued k' x
    · exact h.queued k' x
  sess := h.sess

section

variable (h : LnOk ln) (hit : it ∈ ln.pending)
include h hit

/-- A waiting session is put in the list of its kind or taken out of it. -/
lemma LnOk.relist (b : Bool)
    (f : Queue → Queue) (hn : ∀ q, (f q).n = q.n) (hnodup : (f (ln.q it.kind)).list.Nodup)
    (hmem : ∀ x, x ∈ (f (ln.q it.kind)).list ↔ ⟨x, it.kind, true⟩ = { it with queued := b } ∨
      (⟨x, it.kind, true⟩ : Item) ≠ it ∧ ⟨x, it.kind, true⟩ ∈ ln.pending) :
    LnOk { ln.updQ it.kind f with
      pending := { it with queued := b } :: ln.pending.erase it } where
  n k := by
    change ((ln.updQ it.kind f).q k).n = (_ :: ln.pending.erase it).countP _
    rw [countP_replace hit, updQ_n]
    split
    next hk =>
      subst hk
      rw [hn]
      exact h.n it.kind
    · exact h.n k
  nodup k := by
    change ((ln.updQ it.kind f).q k).list.Nodup
    rw [updQ_n]
    split
    · exact hnodup
    · exact h.nodup k
  queued k x := by
    change x ∈ ((ln.updQ it.kind f).q k).list ↔ _ ∈ _ :: ln.pending.erase it
    rw [h.mem_replace, updQ_n]
    by_cases hk : k = it.kind
    · subst hk
      rw [if_pos rfl]
      exact hmem x
    rw [if_neg hk, h.queued]
    constructor
    · intro hm
      refine .inr ⟨fun heq => hk ?_, hm⟩
      rw [← heq]
    · rintro (heq | ⟨-, hm⟩)
      · exact absurd (congrArg Item.kind heq) hk
      · exact hm
  sess := sess_replace hit rfl h.sess

lemma LnOk.unlink (hq : it.queued = true) :
    LnOk (ln.unlink it) := by
  have heta : (⟨it.s, it.kind, true⟩ : Item) = it := by rw [← hq]
  refine h.relist hit false (fun q => { q with list := q.list.erase it.s }) (fun _ => rfl)
    ((h.nodup it.kind).erase _) fun x => ?_
  rw [(h.nodup it.kind).mem_erase_iff, h.queued]
  constructor
  · rintro ⟨hne, hm⟩
    refine .inr ⟨fun heq => hne ?_, hm⟩
    rw [← heq]
  rintro (heq | ⟨hne, hm⟩)
  · cases heq
  · refine ⟨fun heq => hne ?_, hm⟩
    rw [heq, heta]

lemma LnOk.link (hq : it.queued = false) :
    LnOk { ln.updQ it.kind fun q => { q with list := q.list ++ [it.s] } with
      pending := { it with queued := true } :: ln.pending.erase it } := by
  refine h.relist hit true (fun q => { q with list := q.list ++ [it.s] }) (fun _ => rfl) ?_
    fun x => ?_
  · refine nodup_append.mpr ⟨h.nodup it.kind, nodup_singleton _, ?_⟩
    rintro x hx y hy rfl
    rw [mem_singleton.mp hy, h.queued] at hx
    have := h.unique hx hit rfl
    rw [← this] at hq
    cases hq
  rw [mem_append, mem_singleton, h.queued]
  constructor
  · rintro (hm | rfl)
    · refine .inr ⟨fun heq => ?_, hm⟩
      rw [← heq] at hq
      cases hq
    · exact .inl rfl
  · rintro (heq | ⟨-, hm⟩)
    · exact .inr (congrArg Item.s heq)
    · exact .inl hm

/-- A session that is not queued gives its slot back. -/
lemma LnOk.leave (hq : it.queued = false) :
    LnOk { ln.updQ it.kind fun q => { q with n := q.n - 1 } with
      pending := ln.pending.erase it } where
  n k := by
    change ((ln.updQ it.kind fun q => { q with n := q.n - 1 }).q k).n =
      (ln.pending.erase it).countP _
    have hc := countP_erase hit fun it => it.kind = k
    have hn := h.n k
    rw [updQ_n]
    split
    next hk =>
      subst hk
      rw [hn, hc]
      simp
    next hk =>
      rw [hn, hc, if_neg (by simpa using Ne.symm hk)]
      rfl
  nodup k := by
    change ((ln.updQ it.kind fun q => { q with n := q.n - 1 }).q k).list.Nodup
    rw [updQ_n]
    split
    · exact h.nodup it.kind
    · exact h.nodup k
  queued k x := by
    change x ∈ ((ln.updQ it.kind fun q => { q with n := q.n - 1 }).q k).list ↔
      _ ∈ ln.pending.erase it
    have hlist : ((ln.updQ it.kind fun q => { q with n := q.n - 1 }).q k).list = (ln.q k).list := by
      rw [updQ_n]
      split
      next hk => rw [hk]
      · rfl
    rw [hlist, h.queued, h.sess.of_map.mem_erase_iff]
    refine ⟨fun hm => ⟨fun heq => ?_, hm⟩, And.right⟩
    rw [← heq] at hq
    cases hq
  sess := (h.sess.sublist ((erase_sublist).map _))

end

/-- A slot is bound to a session. -/
lemma LnOk.bind (h : LnOk ln) {x : Nat} (hx : ∀ it ∈ ln.pending, it.s ≠ x) (k : Bool)
    (f : Queue → Queue) (hf : ∀ q, (f q).n = q.n + 1 ∧ (f q).list = q.list) :
    LnOk { ln.updQ k f with pending := ⟨x, k, false⟩ :: ln.pending } where
  n k' := by
    change ((ln.updQ k f).q k').n = _
    have hn := h.n k'
    rw [updQ_n, countP_cons]
    split
    next hk =>
      subst hk
      rw [(hf _).1, hn]
      simp
    next hk =>
      rw [hn, if_neg (by simpa using Ne.symm hk)]
      rfl
  nodup k' := by
    change ((ln.updQ k f).q k').list.Nodup
    rw [updQ_n]
    split
    · rw [(hf _).2]
      exact h.nodup k
    · exact h.nodup k'
  queued k' y := by
    change y ∈ ((ln.updQ k f).q k').list ↔ _
    have hlist : ((ln.updQ k f).q k').list = (ln.q k').list := by
      rw [updQ_n]
      split
      next hk => rw [(hf _).2, hk]
      · rfl
    rw [hlist, h.queued, mem_cons]
    exact ⟨.inr, fun hm => hm.resolve_left fun heq => absurd (congrArg Item.queued heq) nofun⟩
  sess := by
    rw [map_cons, nodup_cons]
    refine ⟨fun hm => ?_, h.sess⟩
    obtain ⟨it, hit, hs⟩ := mem_map.mp hm
    exact hx it hit hs

/-! ### All backlogs -/

/-- The admission is for this backlog. -/
def on (l : Nat) (k : Bool) (r : Run) : Bool := r.ln = l && r.kind = k

/-- The accounts of the backlogs: a reserved slot is a token's, a bound one a pending session's. -/
structure Backlog (cfg : Config) (lns : Nat → Listener) (both lost : List Run)
    (ins : List (Run × Nat)) (next : Nat) : Prop where
  each : ∀ l, LnOk (lns l)
  slots : ∀ l k, ((lns l).q k).reserved =
    (both.countP (on l k) + lost.countP (on l k) + ins.countP (fun p => on l k p.1) : Nat)
  le : ∀ l k, ((lns l).q k).n + ((lns l).q k).reserved ≤ cfg.backlog l
  /-- Sessions pending or to be bound are distinct, and their numbers are given out. -/
  old : ∀ l, ∀ it ∈ (lns l).pending, it.s < next
  insOld : ∀ p ∈ ins, p.2 < next
  insNodup : (ins.map Prod.snd).Nodup
  apart : ∀ p ∈ ins, ∀ l, ∀ it ∈ (lns l).pending, it.s ≠ p.2

open Backlog

variable {lns : Nat → Listener} {both lost : List Run} {ins : List (Run × Nat)} {next : Nat}
  {ln : Listener}

lemma queue_upd (r : Run) (f : Queue → Queue)
    (hq : ln.q = ((lns r.ln).updQ r.kind f).q) (l : Nat) (k : Bool) :
    (update lns r.ln ln l).q k =
      if on l k r then f ((lns l).q k) else (lns l).q k := by
  by_cases hl : l = r.ln
  · subst hl
    rw [update_self, hq, updQ_n]
    by_cases hk : k = r.kind
    · subst hk
      rw [if_pos rfl, if_pos (by simp [on])]
    · rw [if_neg hk, if_neg (by simpa [on] using Ne.symm hk)]
  have hoff : ¬ on l k r = true := by
    simp only [on, Bool.and_eq_true, decide_eq_true_eq]
    exact fun h => hl h.1.symm
  rw [update_of_ne hl, if_neg hoff]

lemma each_upd (h : ∀ l, LnOk (lns l)) {l : Nat} (hln : LnOk ln) (l' : Nat) :
    LnOk (update lns l ln l') := by
  by_cases hl : l' = l
  · subst hl
    rw [update_self]
    exact hln
  · rw [update_of_ne hl]
    exact h l'

/-- What holds of the items of the changed Listener and of the others' holds of all. -/
lemma pending_upd {P : Item → Prop} {l : Nat}
    (h : ∀ l, ∀ it ∈ (lns l).pending, P it) (hln : ∀ it ∈ ln.pending, P it) (l' : Nat) :
    ∀ it ∈ (update lns l ln l').pending, P it := by
  by_cases hl : l' = l
  · subst hl
    rw [update_self]
    exact hln
  · rw [update_of_ne hl]
    exact h l'

/-- No slot of the first Listener is new: it reserves what the second does and has no more
sessions. -/
structure Within (ln' ln : Listener) : Prop where
  reserved : ∀ k, (ln'.q k).reserved = (ln.q k).reserved
  le : ∀ k, (ln'.q k).n ≤ (ln.q k).n
  sess : ∀ it ∈ ln'.pending, ∃ it' ∈ ln.pending, it'.s = it.s

open Within

lemma Within.refl (ln : Listener) : Within ln ln :=
  ⟨fun _ => rfl, fun _ => le_rfl, fun it hit => ⟨it, hit, rfl⟩⟩

lemma Within.trans {ln₁ ln₂ ln₃ : Listener} (h : Within ln₁ ln₂) (h' : Within ln₂ ln₃) :
    Within ln₁ ln₃ := by
  refine ⟨fun k => (h.reserved k).trans (h'.reserved k),
    fun k => le_trans (h.le k) (h'.le k), fun it hit => ?_⟩
  obtain ⟨it₂, h₂, heq⟩ := h.sess it hit
  obtain ⟨it₃, h₃, heq'⟩ := h'.sess it₂ h₂
  exact ⟨it₃, h₃, heq'.trans heq⟩

/-- A queue gives up a slot or changes its list, and no session comes. -/
lemma Within.updQ (k : Bool) (f : Queue → Queue) (hr : ∀ q, (f q).reserved = q.reserved)
    (hn : ∀ q, (f q).n ≤ q.n) {pending : List Item}
    (hs : ∀ it ∈ pending, ∃ it' ∈ ln.pending, it'.s = it.s) :
    Within { ln.updQ k f with pending := pending } ln where
  reserved k' := by
    change ((ln.updQ k f).q k').reserved = _
    rw [updQ_n]
    split
    next hk => rw [hr, hk]
    · rfl
  le k' := by
    change ((ln.updQ k f).q k').n ≤ _
    rw [updQ_n]
    split
    next hk =>
      rw [hk]
      exact hn _
    · exact le_rfl
  sess := hs

lemma sess_of_replace (h : it ∈ l) (b : Bool) :
    ∀ x ∈ { it with queued := b } :: l.erase it, ∃ y ∈ l, y.s = x.s := by
  intro x hx
  rcases mem_cons.mp hx with rfl | hx
  · exact ⟨it, h, rfl⟩
  · exact ⟨x, mem_of_mem_erase hx, rfl⟩

lemma Within.unlink (h : it ∈ ln.pending) : Within (ln.unlink it) ln :=
  updQ it.kind (fun q => { q with list := q.list.erase it.s }) (fun _ => rfl)
    (fun _ => le_rfl) (sess_of_replace h false)

/-- A Listener changes with no token. -/
lemma Backlog.listener (h : Backlog cfg lns both lost ins next) (l : Nat)
    (hln : LnOk ln) (hw : Within ln (lns l)) :
    Backlog cfg (update lns l ln) both lost ins next where
  each := each_upd h.each hln
  slots l' k := by
    rw [← h.slots l' k]
    by_cases hl : l' = l
    · subst hl
      rw [update_self, hw.reserved]
    · rw [update_of_ne hl]
  le l' k := by
    have hle := h.le l' k
    by_cases hl : l' = l
    · subst hl
      rw [update_self, hw.reserved]
      have := hw.le k
      omega
    · rw [update_of_ne hl]
      exact hle
  old := pending_upd h.old fun it hit => by
    obtain ⟨it', hit', heq⟩ := hw.sess it hit
    rw [← heq]
    exact h.old l it' hit'
  insOld := h.insOld
  insNodup := h.insNodup
  apart p hp := pending_upd (h.apart p hp) fun it hit => by
    obtain ⟨it', hit', heq⟩ := hw.sess it hit
    rw [← heq]
    exact h.apart p hp l it' hit'

/-- A slot is reserved. -/
lemma Backlog.reserve (h : Backlog cfg lns both lost ins next) (r : Run)
    (hroom : ((lns r.ln).q r.kind).n + ((lns r.ln).q r.kind).reserved < cfg.backlog r.ln) :
    Backlog cfg (update lns r.ln
      ((lns r.ln).updQ r.kind fun q => { q with reserved := q.reserved + 1 }))
      (r :: both) lost ins next where
  each := each_upd h.each ((h.each r.ln).reserved _ _ fun _ => ⟨rfl, rfl⟩)
  slots l k := by
    have hs := h.slots l k
    rw [queue_upd r _ rfl, countP_cons]
    split <;> simp only [hs] <;> omega
  le l k := by
    have hle := h.le l k
    rw [queue_upd r _ rfl]
    split
    next hon =>
      simp only [on, Bool.and_eq_true, decide_eq_true_eq] at hon
      obtain ⟨rfl, rfl⟩ := hon
      dsimp only
      omega
    · exact hle
  old := pending_upd h.old (h.old r.ln)
  insOld := h.insOld
  insNodup := h.insNodup
  apart p hp := pending_upd (h.apart p hp) (h.apart p hp r.ln)

variable {r : Run}

section

variable (h : Backlog cfg lns both lost ins next)
include h

/-- A reservation is given back. -/
lemma Backlog.unreserve (hr : r ∈ lost) :
    Backlog cfg (update lns r.ln
      ((lns r.ln).updQ r.kind fun q => { q with reserved := q.reserved - 1 }))
      both (lost.erase r) ins next where
  each := each_upd h.each ((h.each r.ln).reserved _ _ fun _ => ⟨rfl, rfl⟩)
  slots l k := by
    have hs := h.slots l k
    have hc := countP_erase hr (on l k)
    rw [queue_upd r _ rfl]
    split
    next hon =>
      rw [if_pos hon] at hc
      dsimp only
      omega
    next hoff =>
      rw [if_neg hoff] at hc
      omega
  le l k := by
    have hle := h.le l k
    rw [queue_upd r _ rfl]
    split
    · dsimp only
      omega
    · exact hle
  old := pending_upd h.old (h.old r.ln)
  insOld := h.insOld
  insNodup := h.insNodup
  apart p hp := pending_upd (h.apart p hp) (h.apart p hp r.ln)

/-- The session of an OPEN loses: its admission has both to give back. -/
lemma Backlog.lose (hr : r ∈ both) :
    Backlog cfg lns (both.erase r) (r :: lost) ins (next + 1) where
  each := h.each
  slots l k := by
    have hs := h.slots l k
    have hc := countP_erase hr (on l k)
    rw [countP_cons, hs]
    omega
  le := h.le
  old l it hit := Nat.lt_succ_of_lt (h.old l it hit)
  insOld p hp := Nat.lt_succ_of_lt (h.insOld p hp)
  insNodup := h.insNodup
  apart := h.apart

/-- The session of an OPEN is inserted. -/
lemma Backlog.insert (hr : r ∈ both) :
    Backlog cfg lns (both.erase r) lost ((r, next) :: ins) (next + 1) where
  each := h.each
  slots l k := by
    have hs := h.slots l k
    have hc := countP_erase hr (on l k)
    rw [countP_cons, hs]
    dsimp only
    omega
  le := h.le
  old l it hit := Nat.lt_succ_of_lt (h.old l it hit)
  insOld p hp := by
    rcases mem_cons.mp hp with rfl | hp
    · exact Nat.lt_succ_self _
    · exact Nat.lt_succ_of_lt (h.insOld p hp)
  insNodup := by
    refine nodup_cons.mpr ⟨fun hm => ?_, h.insNodup⟩
    obtain ⟨p, hp, heq⟩ := mem_map.mp hm
    exact absurd (h.insOld p hp) (by omega)
  apart p hp l it hit := by
    rcases mem_cons.mp hp with rfl | hp
    · exact Nat.ne_of_lt (h.old l it hit)
    · exact h.apart p hp l it hit

/-- A reserved slot becomes the session's. -/
lemma Backlog.bind {x : Nat} (hr : (r, x) ∈ ins) :
    Backlog cfg (update lns r.ln
      { (lns r.ln).updQ r.kind fun q => { q with reserved := q.reserved - 1, n := q.n + 1 } with
        pending := ⟨x, r.kind, false⟩ :: (lns r.ln).pending })
      both lost (ins.erase (r, x)) next where
  each := each_upd h.each ((h.each r.ln).bind (h.apart _ hr r.ln) _ _ fun _ => ⟨rfl, rfl⟩)
  slots l k := by
    have hs := h.slots l k
    have hc := countP_erase hr fun p => on l k p.1
    rw [queue_upd r fun q => { q with reserved := q.reserved - 1, n := q.n + 1 }]
    · split
      next hon =>
        rw [if_pos hon] at hc
        dsimp only
        omega
      next hoff =>
        rw [if_neg hoff] at hc
        omega
    · rfl
  le l k := by
    have hle := h.le l k
    rw [queue_upd r fun q => { q with reserved := q.reserved - 1, n := q.n + 1 }]
    · split
      · dsimp only
        omega
      · exact hle
    · rfl
  old := pending_upd h.old fun it hit => by
    rcases mem_cons.mp hit with rfl | hit
    · exact h.insOld _ hr
    · exact h.old r.ln it hit
  insOld p hp := h.insOld p (mem_of_mem_erase hp)
  insNodup := h.insNodup.sublist ((erase_sublist).map _)
  apart p hp := pending_upd (h.apart p (mem_of_mem_erase hp)) fun it hit => by
    rcases mem_cons.mp hit with rfl | hit
    · -- another admission's session
      have hp' := ((perm_cons_erase hr).map Prod.snd).nodup_iff.mp h.insNodup
      rw [map_cons, nodup_cons] at hp'
      intro heq
      exact hp'.1 (mem_map.mpr ⟨p, hp, heq.symm⟩)
    · exact h.apart p (mem_of_mem_erase hp) r.ln it hit

end

/-- The accounts of the backlogs of a state. -/
def BacklogOk (cfg : Config) (s : State) : Prop :=
  Backlog cfg s.ln s.bothHeld s.lostBoth s.inserted s.nextSess

/-- A session that holds a slot leaves the backlog, queued or not. -/
lemma LnOk.leavePending (h : LnOk ln) (hit : it ∈ ln.pending) :
    let ln' := if it.queued then ln.unlink it else ln
    LnOk { ln'.updQ it.kind fun q => { q with n := q.n - 1 } with
      pending := ln'.pending.erase { it with queued := false } } := by
  intro ln'
  by_cases hq : it.queued = true
  · have hln : ln' = ln.unlink it := if_pos hq
    rw [hln]
    exact (h.unlink hit hq).leave (mem_cons_self ..) rfl
  have hln : ln' = ln := if_neg hq
  have hq' : it.queued = false := Bool.not_eq_true _ ▸ hq
  have heta : ({ it with queued := false } : Item) = it := by
    rw [← hq']
  rw [hln, heta]
  exact h.leave hit hq'

lemma Within.leavePending (hit : it ∈ ln.pending) :
    let ln' := if it.queued then ln.unlink it else ln
    Within { ln'.updQ it.kind fun q => { q with n := q.n - 1 } with
      pending := ln'.pending.erase { it with queued := false } } ln := by
  intro ln'
  have hw : Within ln' ln := by
    by_cases hq : it.queued = true
    · have hln : ln' = ln.unlink it := if_pos hq
      rw [hln]
      exact unlink hit
    · have hln : ln' = ln := if_neg hq
      rw [hln]
      exact refl ln
  refine trans (updQ it.kind (fun q => { q with n := q.n - 1 }) (fun _ => rfl)
    (fun q => ?_) fun x hx => ?_) hw
  · dsimp only
    omega
  · exact ⟨x, mem_of_mem_erase hx, rfl⟩

lemma BacklogOk.step (h : BacklogOk cfg s) (ev : Ev) : BacklogOk cfg (s.step cfg ev) := by
  cases ev with
  | slot r =>
    rw [State.step]
    split
    · dsimp only
      split
      · exact h
      next hroom => exact reserve h r (not_le.mp (not_or.mp hroom).2)
    · exact h
  | insert r now =>
    rw [State.step]
    refine guard h fun hr => ?_
    exact guard (insert h hr) fun _ => lose h hr
  | giveSlot r =>
    rw [State.step]
    exact guard h fun hr => unreserve h hr
  | bind r x =>
    rw [State.step]
    exact guard h fun hr => bind h hr
  | enqueue r x =>
    rw [State.step]
    refine guard h fun _ => ?_
    dsimp only
    split
    · exact h
    rename_i it hit
    obtain ⟨hmem, rfl⟩ := find_item hit
    split
    · exact h
    rename_i hq
    refine listener h r.ln ?_ ?_
    · exact (h.each r.ln).link hmem (Bool.not_eq_true _ ▸ (not_or.mp hq).1)
    · exact updQ it.kind (fun q => { q with list := q.list ++ [it.s] })
        (fun _ => rfl) (fun _ => le_rfl) (sess_of_replace hmem true)
  | leavePending l x =>
    rw [State.step]
    split
    · exact h
    next it hit =>
      obtain ⟨hmem, rfl⟩ := find_item hit
      exact listener h l ((h.each l).leavePending hmem) (leavePending hmem)
  | next l k =>
    rw [State.step]
    split
    · exact h
    split
    · exact h
    rename_i x xs hlist
    split
    · exact h
    rename_i it hit
    obtain ⟨hmem, rfl⟩ := find_item hit
    -- the head of the accept list is queued
    have hq : (⟨it.s, k, true⟩ : Item) ∈ (s.ln l).pending :=
      ((h.each l).queued k it.s).mp (by rw [hlist]; exact mem_cons_self ..)
    have heq := (h.each l).unique hmem hq rfl
    exact listener h l ((h.each l).unlink hmem (by rw [heq])) (unlink hmem)
  | close l =>
    have hw := refl (s.ln l)
    refine listener h l ?_ { hw with }
    exact { h.each l with }
  | _ =>
    -- the other steps leave the backlogs
    simp only [State.step]
    repeat' split
    all_goals exact h

/-! ### Order -/

/-- The session that a step queues. -/
def Ev.queues : Ev → List Nat
  | .enqueue _ x => [x]
  | _ => []

end Rendr.Admission
