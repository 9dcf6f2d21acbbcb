import Rendr.Lib.Run
import Rendr.Sched.Selector

/-!
# Quality switches are sound

A dwell is read off the history of calls (`Dwells`): at each evaluation since its start the factory
qualified against one active factory, each sample came before the previous one had aged out, and
nothing else happened in between. The clocks of the selector are exactly that (`Clocks`): the loop
of `Evaluate` advances each of them by itself and picks the best completed one (`Scanned`).

* `quality_switch_sound` — what a Switch verdict says about the whole history.
-/

namespace Rendr.Quality

open Function List Selector

variable (p : SelectorParams)

/-- The evaluation found the factory qualifying against the active one. -/
structure Eval.Qualified (e : Eval) (a : Int) (j : Nat) : Prop where
  active : e.active = a
  ge : 0 ≤ a
  lt : a < e.sum.length
  ne : (j : Int) ≠ a
  present : j < min e.sum.length maxFactories
  good : e.good p j = true

/-- The dwell of factory `j` against `a` that started at the first time and whose newest sample is at
the second. -/
inductive Dwells (a : Int) (j : Nat) : Int → Int → List Rec → Prop
  | start {e : Eval} {log : List Rec} (hq : e.Qualified p a j) :
    Dwells a j e.now (e.stamp j) (.eval e :: log)
  | next {e : Eval} {log : List Rec} {t₀ t : Int} (h : Dwells a j t₀ t log)
    (hq : e.Qualified p a j) (hle : t ≤ e.stamp j) (hge : e.stamp j ≤ t + wrap64 (p.fresh + 1)) :
    Dwells a j t₀ (e.stamp j) (.eval e :: log)

/-- The first factory ranks before the second. -/
def Eval.Before (e : Eval) (i j : Nat) : Prop :=
  e.cls i < e.cls j ∨ e.cls i = e.cls j ∧ (e.rtt p i < e.rtt p j ∨ e.rtt p i = e.rtt p j ∧ i < j)

/-! ### The loop -/

/-- The clock of a qualifying factory after the evaluation. -/
def Eval.clock (e : Eval) (s : Selector) (j : Nat) : Int :=
  if !s.qual j || s.gap p j (e.stamp j) then e.now else s.since j

/-- The loop of `Evaluate` after the factories below `k`. -/
structure Scanned (e : Eval) (s : Selector) (k : Nat) (c : Scan) : Prop where
  inc : c.s.inc = s.inc
  cls : c.s.cls = s.cls
  cool : c.s.hasQual = s.hasQual ∧ c.s.lastQual = s.lastQual
  rest : ∀ j, k ≤ j ∨ (j : Int) = e.active →
    c.s.qual j = s.qual j ∧ c.s.since j = s.since j ∧ c.s.seen j = s.seen j
  bad : ∀ j < k, (j : Int) ≠ e.active → e.good p j = false → c.s.qual j = false
  good : ∀ j < k, (j : Int) ≠ e.active → e.good p j = true →
    c.s.qual j = true ∧ c.s.since j = e.clock p s j ∧ c.s.seen j = e.stamp j
  noBest : c.best = none → ∀ j < k, (j : Int) ≠ e.active → e.good p j = true →
    e.now < e.clock p s j + p.dwell
  best : ∀ b r, c.best = some (b, r) →
    (b < k ∧ (b : Int) ≠ e.active ∧ e.good p b = true ∧ r = e.rtt p b ∧
      e.clock p s b + p.dwell ≤ e.now) ∧
    ∀ j < k, (j : Int) ≠ e.active → e.good p j = true → e.clock p s j + p.dwell ≤ e.now →
      j = b ∨ e.Before p b j

variable {p} {e : Eval} {s : Selector} {k : Nat} {c : Scan}

lemma Scanned.zero (e : Eval) (s : Selector) : Scanned p e s 0 ⟨s, none, 0⟩ where
  inc := rfl
  cls := rfl
  cool := ⟨rfl, rfl⟩
  rest _ _ := ⟨rfl, rfl, rfl⟩
  bad j hj := absurd hj (Nat.not_lt_zero j)
  good j hj := absurd hj (Nat.not_lt_zero j)
  noBest _ j hj := absurd hj (Nat.not_lt_zero j)
  best _ _ h := by cases h

/-- What holds of the factories below `k` and of `k` holds of those below `k + 1`. -/
lemma forall_lt_succ {P : Nat → Prop} (h : ∀ j < k, P j) (hk : P k) : ∀ j < k + 1, P j := by
  intro j hj
  rcases Nat.lt_succ_iff_lt_or_eq.mp hj with hj | rfl
  · exact h j hj
  · exact hk

/-- The active factory is passed over. -/
lemma Scanned.skip (h : Scanned p e s k c) (ha : (k : Int) = e.active) :
    Scanned p e s (k + 1) (visit p e c k) := by
  rw [visit, if_pos ha]
  refine ⟨h.inc, h.cls, h.cool, fun j hj => ?_, forall_lt_succ h.bad fun hne => absurd ha hne,
    forall_lt_succ h.good fun hne => absurd ha hne,
    fun hn => forall_lt_succ (h.noBest hn) fun hne => absurd ha hne, fun b r hb => ?_⟩
  · rcases hj with hj | hj
    · exact h.rest j (.inl (by omega))
    · exact h.rest j (.inr hj)
  · obtain ⟨⟨h1, h2⟩, h3⟩ := h.best b r hb
    exact ⟨⟨by omega, h2⟩, forall_lt_succ h3 fun hne => absurd ha hne⟩

/-- A factory that does not qualify loses its clock. -/
lemma Scanned.drop (h : Scanned p e s k c) (ha : (k : Int) ≠ e.active)
    (hg : e.good p k = false) : Scanned p e s (k + 1) (visit p e c k) := by
  rw [visit, if_neg ha, if_pos (by rw [hg]; rfl)]
  have hother : ∀ j, j ≠ k → (update c.s.qual k false) j = c.s.qual j := fun j hj =>
    update_of_ne hj ..
  refine ⟨h.inc, h.cls, h.cool, fun j hj => ?_, ?_, ?_, fun hn => forall_lt_succ (h.noBest hn) ?_,
    fun b r hb => ?_⟩
  · have hne : j ≠ k := by
      rintro rfl
      rcases hj with hj | hj
      · omega
      · exact ha hj
    have := h.rest j (hj.imp_left fun hj => by omega)
    exact ⟨(hother j hne).trans this.1, this.2⟩
  · intro j hj hne hb
    by_cases hjk : j = k
    · subst hjk
      exact update_self ..
    · exact (hother j hjk).trans (h.bad j (by omega) hne hb)
  · intro j hj hne hb
    have hjk : j ≠ k := by
      rintro rfl
      rw [hg] at hb
      cases hb
    have := h.good j (by omega) hne hb
    exact ⟨(hother j hjk).trans this.1, this.2⟩
  · intro _ hb
    rw [hg] at hb
    cases hb
  obtain ⟨⟨h1, h2⟩, h3⟩ := h.best b r hb
  refine ⟨⟨by omega, h2⟩, forall_lt_succ h3 fun _ hb => ?_⟩
  rw [hg] at hb
  cases hb

lemma Selector.mark_self (t : Selector) (e : Eval) (k : Nat) :
    (t.mark p e k).qual k = true ∧ (t.mark p e k).since k = e.clock p t k ∧
      (t.mark p e k).seen k = e.stamp k := by
  unfold mark Eval.clock
  by_cases hc : (!t.qual k || t.gap p k (e.stamp k)) = true
  · rw [if_pos hc, if_pos hc]
    exact ⟨update_self .., update_self .., update_self ..⟩
  · rw [if_neg hc, if_neg hc]
    simp only [Bool.or_eq_true, Bool.not_eq_true', not_or, Bool.not_eq_false] at hc
    exact ⟨hc.1, rfl, update_self ..⟩

lemma Selector.mark_other (t : Selector) (e : Eval) {k j : Nat} (hj : j ≠ k) :
    (t.mark p e k).qual j = t.qual j ∧ (t.mark p e k).since j = t.since j ∧
      (t.mark p e k).seen j = t.seen j := by
  unfold mark
  split
  · exact ⟨update_of_ne hj .., update_of_ne hj .., update_of_ne hj ..⟩
  · exact ⟨rfl, rfl, update_of_ne hj ..⟩

lemma Selector.mark_rest (t : Selector) (e : Eval) (k : Nat) :
    (t.mark p e k).inc = t.inc ∧ (t.mark p e k).cls = t.cls ∧
      (t.mark p e k).hasQual = t.hasQual ∧ (t.mark p e k).lastQual = t.lastQual := by
  unfold mark
  split <;> exact ⟨rfl, rfl, rfl, rfl⟩

section

variable (h : Scanned p e s k c)
include h

/-- A factory visited for the first time has the clock of the state before the loop. -/
lemma Scanned.clock_eq : e.clock p c.s k = e.clock p s k := by
  obtain ⟨h1, h2, h3⟩ := h.rest k (.inl (Nat.le_refl k))
  unfold Eval.clock gap
  rw [h1, h2, h3]

section

variable (ha : (k : Int) ≠ e.active) (hg : e.good p k = true)
include ha hg

/-- A qualifying factory, whatever its clock says: the clocks. -/
lemma Scanned.mark
    {best : Option (Nat × Int)} {dwellEnd : Int}
    (hnone : best = none → ∀ j < k + 1, (j : Int) ≠ e.active → e.good p j = true →
      e.now < e.clock p s j + p.dwell)
    (hsome : ∀ b r, best = some (b, r) → (b < k + 1 ∧ (b : Int) ≠ e.active ∧ e.good p b = true ∧
        r = e.rtt p b ∧ e.clock p s b + p.dwell ≤ e.now) ∧
      ∀ j < k + 1, (j : Int) ≠ e.active → e.good p j = true → e.clock p s j + p.dwell ≤ e.now → j = b ∨ e.Before p b j)
    : Scanned p e s (k + 1) ⟨c.s.mark p e k, best, dwellEnd⟩ := by
  obtain ⟨m1, m2, m3⟩ := c.s.mark_rest (p := p) e k
  refine ⟨m1.trans h.inc, m2.trans h.cls, ⟨m3.1.trans h.cool.1, m3.2.trans h.cool.2⟩,
    fun j hj => ?_, fun j hj hne hb => ?_, fun j hj hne hb => ?_, hnone, hsome⟩
  · have hjk : j ≠ k := by
      rintro rfl
      rcases hj with hj | hj
      · omega
      · exact ha hj
    obtain ⟨o1, o2, o3⟩ := c.s.mark_other (p := p) e hjk
    obtain ⟨r1, r2, r3⟩ := h.rest j (hj.imp_left fun hj => by omega)
    exact ⟨o1.trans r1, o2.trans r2, o3.trans r3⟩
  · have hjk : j ≠ k := by
      rintro rfl
      rw [hg] at hb
      cases hb
    exact (c.s.mark_other (p := p) e hjk).1.trans (h.bad j (by omega) hne hb)
  by_cases hjk : j = k
  · subst hjk
    obtain ⟨s1, s2, s3⟩ := c.s.mark_self (p := p) e j
    exact ⟨s1, s2.trans h.clock_eq, s3⟩
  · obtain ⟨o1, o2, o3⟩ := c.s.mark_other (p := p) e hjk
    obtain ⟨g1, g2, g3⟩ := h.good j (by omega) hne hb
    exact ⟨o1.trans g1, o2.trans g2, o3.trans g3⟩

/-- A qualifying factory whose dwell is still running. -/
lemma Scanned.wait
    (hw : e.now < e.clock p s k + p.dwell) (dwellEnd : Int) :
    Scanned p e s (k + 1) ⟨c.s.mark p e k, c.best, dwellEnd⟩ := by
  refine h.mark ha hg (fun hn => forall_lt_succ (h.noBest hn) fun _ _ => hw) fun b r hb => ?_
  obtain ⟨⟨h1, h2⟩, h3⟩ := h.best b r hb
  exact ⟨⟨by omega, h2⟩, forall_lt_succ h3 fun _ _ hd => absurd hd (not_le.mpr hw)⟩

/-- A qualifying factory whose dwell is complete. -/
lemma Scanned.complete
    (hd : e.clock p s k + p.dwell ≤ e.now) :
    Scanned p e s (k + 1) ⟨c.s.mark p e k, some (c.rank p e k), c.dwellEnd⟩ := by
  refine h.mark ha hg nofun fun b r hb => ?_
  have hb' : c.rank p e k = (b, r) := Option.some.inj hb
  unfold Scan.rank at hb'
  have hself : k < k + 1 ∧ (k : Int) ≠ e.active ∧ e.good p k = true ∧ e.rtt p k = e.rtt p k ∧
      e.clock p s k + p.dwell ≤ e.now := ⟨Nat.lt_succ_self k, ha, hg, rfl, hd⟩
  split at hb'
  next hnone =>
    cases hb'
    refine ⟨hself, forall_lt_succ (fun j hj hne hgj hdj => ?_) fun _ _ _ => .inl rfl⟩
    exact absurd hdj (not_le.mpr (h.noBest hnone j hj hne hgj))
  rename_i b₀ r₀ hsome
  obtain ⟨⟨h1, h2, h3, rfl, h5⟩, h6⟩ := h.best b₀ r₀ hsome
  split at hb'
  next hbetter =>
    cases hb'
    -- the new best ranks before the old one, and so before all that one ranks before
    have hfirst : e.Before p k b₀ := by
      rcases hbetter with hc | ⟨hc, hr⟩
      · exact .inl hc
      · exact .inr ⟨hc, .inl hr⟩
    refine ⟨hself, forall_lt_succ (fun j hj hne hgj hdj => .inr ?_) fun _ _ _ => .inl rfl⟩
    rcases h6 j hj hne hgj hdj with rfl | hlate
    · exact hfirst
    · unfold Eval.Before at *
      omega
  next hworse =>
  cases hb'
  refine ⟨⟨by omega, h2, h3, rfl, h5⟩, forall_lt_succ h6 fun _ _ _ => .inr ?_⟩
  unfold Eval.Before
  omega

end

lemma Scanned.visit : Scanned p e s (k + 1) (visit p e c k) := by
  by_cases ha : (k : Int) = e.active
  · exact h.skip ha
  by_cases hg : e.good p k = true
  · have hclock : (c.s.mark p e k).since k = e.clock p s k :=
      (c.s.mark_self (p := p) e k).2.1.trans h.clock_eq
    rw [Quality.visit, if_neg ha, if_neg (by rw [hg]; decide)]
    dsimp only
    rw [hclock]
    split
    next hw => exact h.wait ha hg hw _
    next hd => exact h.complete ha hg (not_lt.mp hd)
  · exact h.drop ha (Bool.not_eq_true _ ▸ hg)

end

/-- **The loop of `Evaluate`**. -/
lemma scanned (e : Eval) (s : Selector) (n : Nat) :
    Scanned p e s n ((List.range n).foldl (Quality.visit p e) ⟨s, none, 0⟩) := by
  induction n with
  | zero => exact Scanned.zero e s
  | succ n ih =>
    rw [range_succ, foldl_append]
    exact ih.visit

/-! ### The clocks -/

/-- The calls come at nondecreasing times. -/
def Timely (r : Run) : Call → Prop
  | .evaluate now _ _ _ => ∀ x ∈ r.log, x.now ≤ now
  | .switched now _ => ∀ x ∈ r.log, x.now ≤ now
  | .setClasses _ => True

variable (p) in
/-- The clocks of a selector are the dwells of its history. -/
structure Clocks (r : Run) : Prop where
  dwells : ∀ j, r.s.qual j = true → Dwells p r.s.inc j (r.s.since j) (r.s.seen j) r.log
  all : ∀ a j t₀ t, Dwells p a j t₀ t r.log →
    a = r.s.inc ∧ r.s.qual j = true ∧ r.s.since j ≤ t₀ ∧ r.s.seen j = t
  cool : ∀ l₁ q l₂, r.log = l₁ ++ .switched q true :: l₂ → (∀ q', .switched q' true ∉ l₁) →
    r.s.hasQual = true ∧ r.s.lastQual = q

variable {r : Run} {a : Int} {j : Nat} {t₀ t : Int} {log : List Rec}

lemma Dwells.time_mem (h : Dwells p a j t₀ t log) : ∃ x ∈ log, x.now = t₀ := by
  induction h with
  | start => exact ⟨_, mem_cons_self .., rfl⟩
  | next _ _ _ _ ih =>
    obtain ⟨x, hx, ht⟩ := ih
    exact ⟨x, mem_cons_of_mem _ hx, ht⟩

lemma Dwells.ne (h : Dwells p a j t₀ t log) : (j : Int) ≠ a := by
  cases h with
  | start hq => exact hq.ne
  | next _ hq => exact hq.ne

/-- A history that ends with an evaluation of another kind has no dwell. -/
lemma Dwells.head {x : Rec} (h : Dwells p a j t₀ t (x :: log)) :
    ∃ e, x = .eval e ∧ e.Qualified p a j := by
  cases h with
  | start hq => exact ⟨_, rfl, hq⟩
  | next _ hq => exact ⟨_, rfl, hq⟩

variable {s : Selector}

lemma gap_eq_false (h : s.gap p j t = false) :
    s.seen j ≤ t ∧ t ≤ s.seen j + wrap64 (p.fresh + 1) := by
  simp only [gap, Bool.or_eq_false_iff, decide_eq_false_iff_not, not_lt] at h
  exact h

lemma begin_inc (s : Selector) (e : Eval) (n : Nat) : (s.begin e n).inc = e.active := by
  unfold begin
  by_cases h : e.active ≠ s.inc
  · rw [if_pos h]
  · rw [if_neg h]
    exact (not_not.mp h).symm

variable {e : Eval}

/-- The clocks that an evaluation starts from: those of the same incumbent. -/
lemma begin_qual {n : Nat} :
    (s.begin e n).qual j = true ↔ e.active = s.inc ∧ s.qual j = true ∧ j < n := by
  unfold begin
  by_cases h : e.active ≠ s.inc
  · rw [if_pos h]
    simp [h]
  · rw [if_neg h]
    simp [not_not.mp h]

lemma begin_rest (s : Selector) (e : Eval) (n : Nat) :
    (s.begin e n).since = s.since ∧ (s.begin e n).seen = s.seen ∧
      (s.begin e n).hasQual = s.hasQual ∧ (s.begin e n).lastQual = s.lastQual := by
  unfold begin
  split <;> exact ⟨rfl, rfl, rfl, rfl⟩

/-- An evaluation leaves the cooldown alone. -/
lemma Clocks.cool_eval (h : Clocks p r) (e : Eval) {l₁ : List Rec} {q : Int} {l₂ : List Rec}
    (hl : .eval e :: r.log = l₁ ++ .switched q true :: l₂) (hn : ∀ q', .switched q' true ∉ l₁) :
    r.s.hasQual = true ∧ r.s.lastQual = q := by
  cases l₁ with
  | nil => cases hl
  | cons x l₁ =>
    obtain ⟨-, hl⟩ := List.cons.inj hl
    exact h.cool l₁ q l₂ hl fun q' hm => hn q' (mem_cons_of_mem _ hm)

/-- The selector after the loop of an evaluation with an active factory. -/
lemma Clocks.scanned (h : Clocks p r) (htime : ∀ x ∈ r.log, x.now ≤ e.now)
    (hge : 0 ≤ e.active) (hlt : e.active < e.sum.length) {c : Scan}
    (hc : Scanned p e (r.s.begin e (min e.sum.length maxFactories))
      (min e.sum.length maxFactories) c) : Clocks p ⟨c.s, .eval e :: r.log⟩ := by
  obtain ⟨b1, b2, b3, b4⟩ := begin_rest r.s e (min e.sum.length maxFactories)
  have hinc : c.s.inc = e.active := hc.inc.trans (begin_inc ..)
  refine ⟨fun j hj => ?_, fun a j t₀ t hd => ?_, fun l₁ q l₂ hl hn => ?_⟩
  · change c.s.qual j = true at hj
    change Dwells p c.s.inc j (c.s.since j) (c.s.seen j) (.eval e :: r.log)
    by_cases hin : j < min e.sum.length maxFactories ∧ (j : Int) ≠ e.active
    · have hg : e.good p j = true := by
        by_contra hg
        rw [hc.bad j hin.1 hin.2 (Bool.not_eq_true _ ▸ hg)] at hj
        cases hj
      have hq : e.Qualified p e.active j := ⟨rfl, hge, hlt, hin.2, hin.1, hg⟩
      obtain ⟨-, g2, g3⟩ := hc.good j hin.1 hin.2 hg
      rw [hinc, g2, g3]
      unfold Eval.clock
      split
      · exact .start hq
      rename_i hgo
      simp only [Bool.or_eq_true, Bool.not_eq_true', not_or, Bool.not_eq_false,
        Bool.not_eq_true] at hgo
      obtain ⟨ha, hqual, -⟩ := begin_qual.mp hgo.1
      obtain ⟨k1, k2⟩ := gap_eq_false hgo.2
      rw [b2] at k1 k2
      rw [b1]
      exact .next (ha ▸ h.dwells j hqual) hq k1 k2
    -- the clocks of the active factory and of those not present do not run
    have hout : min e.sum.length maxFactories ≤ j ∨ (j : Int) = e.active := by
      by_contra hno
      exact hin ⟨by omega, fun he => hno (.inr he)⟩
    rw [(hc.rest j hout).1] at hj
    obtain ⟨ha, hqual, hjn⟩ := begin_qual.mp hj
    have hne := (h.dwells j hqual).ne
    rw [← ha] at hne
    exact absurd ⟨hjn, hne⟩ hin
  · obtain ⟨e', he', hq⟩ := hd.head
    cases he'
    have ha : e.active = a := hq.active
    obtain ⟨g1, g2, g3⟩ := hc.good j hq.present (ha ▸ hq.ne) hq.good
    refine ⟨(hinc.trans ha).symm, g1, ?_, ?_⟩
    · change c.s.since j ≤ t₀
      rw [g2]
      cases hd with
      | start =>
        unfold Eval.clock
        split
        · exact le_rfl
        rename_i hgo
        simp only [Bool.or_eq_true, Bool.not_eq_true', not_or, Bool.not_eq_false] at hgo
        obtain ⟨x, hx, ht⟩ := (h.dwells j (begin_qual.mp hgo.1).2.1).time_mem
        rw [b1, ← ht]
        exact htime x hx
      | @next _ _ _ t' hd' _ hle hge' =>
        obtain ⟨i1, i2, i3, i4⟩ := h.all a j t₀ t' hd'
        have hbegin : (r.s.begin e (min e.sum.length maxFactories)).qual j = true :=
          begin_qual.mpr ⟨ha.trans i1, i2, hq.present⟩
        have hgap : (r.s.begin e (min e.sum.length maxFactories)).gap p j (e.stamp j) = false := by
          simp only [gap, b2, i4, Bool.or_eq_false_iff, decide_eq_false_iff_not,
            not_lt]
          exact ⟨hle, hge'⟩
        unfold Eval.clock
        rw [hbegin, hgap, b1]
        exact i3
    · change c.s.seen j = t
      rw [g3]
      cases hd <;> rfl
  · obtain ⟨c1, c2⟩ := hc.cool
    obtain ⟨k1, k2⟩ := h.cool_eval e hl hn
    exact ⟨(c1.trans b3).trans k1, (c2.trans b4).trans k2⟩

/-- The selector after an evaluation. -/
lemma evaluate_fst (s : Selector) (e : Eval) :
    (s.evaluate p e).1 =
      if e.active < 0 ∨ e.sum.length ≤ e.active then { s with qual := fun _ => false }
      else ((List.range (min e.sum.length maxFactories)).foldl (visit p e)
        ⟨s.begin e (min e.sum.length maxFactories), none, 0⟩).s := by
  unfold evaluate
  dsimp only
  split
  · rfl
  · split
    · rfl
    · split <;> rfl

lemma Clocks.step (h : Clocks p r) {call : Call} (ht : Timely r call) :
    Clocks p (r.step p call) := by
  cases call with
  | evaluate now active sum failed =>
    have hs := evaluate_fst (p := p) r.s (r.eval now active sum failed)
    change Clocks p ⟨(r.s.evaluate p (r.eval now active sum failed)).1, _⟩
    rw [hs]
    split
    next hno =>
      refine ⟨fun j hj => ?_, fun a j t₀ t hd => ?_, fun l₁ q l₂ hl hn => ?_⟩
      · cases hj
      · obtain ⟨e', he', hq⟩ := hd.head
        cases he'
        have := hq.active
        have := hq.ge
        have := hq.lt
        omega
      · exact h.cool_eval _ hl hn
    next hact =>
    obtain ⟨h1, h2⟩ := not_or.mp hact
    have htime : ∀ x ∈ r.log, x.now ≤ (r.eval now active sum failed).now := ht
    exact h.scanned htime (not_lt.mp h1) (not_le.mp h2) (Quality.scanned _ _ _)
  | switched now quality =>
    refine ⟨fun j hj => ?_, fun a j t₀ t hd => ?_, fun l₁ q l₂ hl hn => ?_⟩
    · cases quality <;> cases hj
    · obtain ⟨e', he', -⟩ := hd.head
      cases he'
    cases l₁ with
    | nil =>
      obtain ⟨hx, -⟩ := List.cons.inj hl
      cases hx
      exact ⟨rfl, rfl⟩
    | cons x l₁ =>
      have hcons : .switched now quality :: r.log = (x :: l₁) ++ .switched q true :: l₂ := hl
      obtain ⟨rfl, hlog⟩ := List.cons.inj hcons
      cases quality with
      | true => exact absurd (mem_cons_self ..) (hn now)
      | false => exact h.cool l₁ q l₂ hlog fun q' hm => hn q' (mem_cons_of_mem _ hm)
  | setClasses c => exact { h with }

lemma Clocks.start : Clocks p Run.start where
  dwells _ h := by cases h
  all _ _ _ _ h := by cases h
  cool l₁ _ _ h := by cases l₁ <;> cases h

/-! ### Fresh at every instant -/

/-- The factory's summary at the evaluation is that of its aggregator after some of its `Add` calls,
with a newest sample stamped by then. -/
def Eval.Produced (e : Eval) (agg : AggParams) (adds : List Sample) (j : Nat) : Prop :=
  ∃ xs ys, adds = xs ++ ys ∧ sumAt e.sum j = (aggregate agg xs).summary agg ∧ e.stamp j ≤ e.now

/-- A qualifying factory is Fresh. -/
lemma Eval.Qualified.within (h : e.Qualified p a j) :
    e.stamp j ≠ 0 ∧ sub e.now (e.stamp j) ≤ p.fresh := by
  have hg := h.good
  simp only [Eval.good, challenger, Bool.and_eq_true] at hg
  obtain ⟨hch, -⟩ := hg
  split at hch
  · cases hch
  · simp only [Bool.and_eq_true, decide_eq_true_eq] at hch
    have hw := (classify_fresh_iff.mp hch.1.1).2.2
    simpa [Quality.within, Eval.stamp] using hw

/-- The evidence is Fresh from a sample on, up to the evaluation that saw it. -/
lemma Eval.Produced.fresh {agg : AggParams} {adds : List Sample}
    (h : e.Produced agg adds j) (hne : e.stamp j ≠ 0) {u : Int} (hu : e.stamp j ≤ u)
    (hw : sub u (e.stamp j) ≤ p.fresh) : (evidenceAt agg p.fresh adds u).state = .fresh := by
  obtain ⟨xs, ys, rfl, hsum, -⟩ := h
  have hat : e.stamp j = (aggregate agg xs).sampledAt := congrArg Summary.sampledAt hsum
  rw [hat] at hne hu hw
  exact evidenceAt_fresh hne hu hw

/-- The next sample came before the last one had aged out. -/
lemma sub_le_of_no_gap {t t' u : Int} (h1 : t ≤ t') (h2 : t' ≤ t + wrap64 (p.fresh + 1))
    (hu : u < t') : sub u t ≤ p.fresh := by
  have hge := p.fresh_ge
  have hlt := p.fresh_lt
  unfold wrap64 at h2
  unfold sub
  omega

/-- **A dwell as a period.** The newest records of the history are evaluations at which the factory
qualified, the oldest of them at the start; and where its summaries come from one aggregator, its
evidence was Fresh at every instant between. -/
lemma Dwells.period (h : Dwells p a j t₀ t log)
    (hsorted : log.Pairwise fun x y => y.now ≤ x.now) :
    ∃ e ds before, log = (e :: ds).map Rec.eval ++ before ∧ e.stamp j = t ∧
      (∀ d ∈ e :: ds, d.Qualified p a j) ∧ ((e :: ds).getLast?.map Eval.now = some t₀) ∧
      ∀ agg adds, (∀ d ∈ e :: ds, d.Produced agg adds j) → ∀ u, t₀ ≤ u → u ≤ e.now →
        (evidenceAt agg p.fresh adds u).state = .fresh := by
  induction h with
  | @start e log hq =>
    refine ⟨e, [], log, rfl, rfl, ?_, rfl, fun agg adds hp u h1 h2 => ?_⟩
    · intro d hd
      rw [mem_singleton.mp hd]
      exact hq
    obtain rfl : u = e.now := Int.le_antisymm h2 h1
    have hpe := hp e (mem_cons_self ..)
    have hstamp : e.stamp j ≤ e.now := by
      obtain ⟨-, -, -, -, hle⟩ := hpe
      exact hle
    exact hpe.fresh hq.within.1 hstamp hq.within.2
  | @next e log t₀ t hd hq hle hge ih =>
    obtain ⟨e', ds, before, hlog, hstamp', hall, hlast, hfresh⟩ :=
      ih (pairwise_cons.mp hsorted).2
    refine ⟨e, e' :: ds, before, ?_, rfl, ?_, ?_, fun agg adds hp u h1 h2 => ?_⟩
    · rw [hlog]
      rfl
    · intro d hd
      rcases mem_cons.mp hd with rfl | hd
      · exact hq
      · exact hall d hd
    · rw [getLast?_cons_cons]
      exact hlast
    have hpe' := hp e' (mem_cons_of_mem _ (mem_cons_self ..))
    by_cases hu : u ≤ e'.now
    · exact hfresh agg adds (fun d hd => hp d (mem_cons_of_mem _ hd)) u h1 hu
    by_cases hnew : e.stamp j ≤ u
    · -- the new sample is there
      have hle' : sub u (e.stamp j) ≤ sub e.now (e.stamp j) := by
        unfold sub
        omega
      exact (hp e (mem_cons_self ..)).fresh hq.within.1 hnew
        (le_trans hle' hq.within.2)
    -- the last sample has not aged out
    have hw := sub_le_of_no_gap (p := p) hle hge (not_le.mp hnew)
    rw [← hstamp'] at hw
    have hstamp : e'.stamp j ≤ e'.now := by
      obtain ⟨-, -, -, -, hle⟩ := hpe'
      exact hle
    exact hpe'.fresh (hall e' (mem_cons_self ..)).within.1 (by omega) hw

/-! ### Every run -/

lemma sorted_step (h : r.log.Pairwise fun x y => y.now ≤ x.now) {call : Call}
    (ht : Timely r call) : (r.step p call).log.Pairwise fun x y => y.now ≤ x.now := by
  cases call with
  | evaluate | switched => exact pairwise_cons.mpr ⟨ht, h⟩
  | setClasses => exact h

/-- A Switch verdict names the best factory with a completed clock, after the cooldown. -/
lemma evaluate_switch {i : Nat}
    (h : (s.evaluate p e).2.switch = some i) :
    (0 ≤ e.active ∧ e.active < e.sum.length) ∧
      (s.hasQual = true → s.lastQual + p.cooldown ≤ e.now) ∧
      let b := s.begin e (min e.sum.length maxFactories)
      (i < min e.sum.length maxFactories ∧ (i : Int) ≠ e.active ∧ e.good p i = true ∧
        e.clock p b i + p.dwell ≤ e.now) ∧
      ∀ j < min e.sum.length maxFactories, (j : Int) ≠ e.active → e.good p j = true →
        e.clock p b j + p.dwell ≤ e.now → j = i ∨ e.Before p i j := by
  have hscan := scanned (p := p) e (s.begin e (min e.sum.length maxFactories))
    (min e.sum.length maxFactories)
  obtain ⟨-, -, b3, b4⟩ := begin_rest s e (min e.sum.length maxFactories)
  unfold evaluate at h
  dsimp only at h
  split at h
  · cases h
  rename_i hact
  obtain ⟨h1, h2⟩ := not_or.mp hact
  split at h
  · cases h
  rename_i b rtt hbest
  split at h
  · cases h
  rename_i hcool
  cases h
  obtain ⟨⟨k1, k2, k3, -, k5⟩, k6⟩ := hscan.best _ _ hbest
  refine ⟨⟨not_lt.mp h1, not_le.mp h2⟩, fun hq => ?_, ⟨k1, k2, k3, k5⟩, k6⟩
  rw [hscan.cool.1, hscan.cool.2, b3, b4] at hcool
  exact not_lt.mp fun hlt => hcool ⟨hq, hlt⟩

/-- **Quality switches are sound.** When `Evaluate` returns a switch to factory `i`, then `i` has a
completed dwell: the newest records of the history are evaluations with the same active factory at
which `i` qualified, the oldest at `t₀ ≤ now - Dwell`, and where its summaries come from one
aggregator its evidence was Fresh at every instant since; the last quality switch is at least
Cooldown ago; and `i` ranks before every other factory with a completed dwell. -/
theorem quality_switch_sound (p : SelectorParams) (calls : List Call) (now active : Int)
    (sum : List Summary) (failed : List Bool) (i : Nat)
    (htime : Along (Run.step p) Timely Run.start (calls ++ [.evaluate now active sum failed]))
    (hswitch : let r := runFrom (Run.step p) Run.start calls
      (r.s.evaluate p (r.eval now active sum failed)).2.switch = some i) :
    let r := runFrom (Run.step p) Run.start calls
    let e := r.eval now active sum failed
    let log := (r.step p (.evaluate now active sum failed)).log
    (∃ t₀ t, Dwells p active i t₀ t log ∧ t₀ + p.dwell ≤ now ∧
      ∃ ds before, log = (e :: ds).map Rec.eval ++ before ∧
        (∀ d ∈ e :: ds, d.Qualified p active i) ∧ (e :: ds).getLast?.map Eval.now = some t₀ ∧
        ∀ agg adds, (∀ d ∈ e :: ds, d.Produced agg adds i) → ∀ u, t₀ ≤ u → u ≤ now →
          (evidenceAt agg p.fresh adds u).state = .fresh) ∧
    (∀ l₁ q l₂, log = l₁ ++ .switched q true :: l₂ → (∀ q', .switched q' true ∉ l₁) →
      q + p.cooldown ≤ now) ∧
    ∀ j t₀ t, Dwells p active j t₀ t log → t₀ + p.dwell ≤ now → j = i ∨ e.Before p i j := by
  intro r e log
  obtain ⟨hcalls, hlast⟩ := along_append htime
  have hclocks : Clocks p r :=
    runFrom_along (Clocks p) Clocks.start (fun _ _ ht h => h.step ht) hcalls
  have hsorted : r.log.Pairwise fun x y => y.now ≤ x.now :=
    runFrom_along (fun r : Run => r.log.Pairwise fun x y => y.now ≤ x.now) List.Pairwise.nil
      (fun _ _ ht h => sorted_step h ht) hcalls
  have ht : Timely r (.evaluate now active sum failed) := hlast.1
  have hnew := hclocks.step ht
  have hnewSorted := sorted_step (p := p) hsorted ht
  obtain ⟨⟨ha1, ha2⟩, hcool, ⟨k1, k2, k3, k4⟩, hbest⟩ := evaluate_switch hswitch
  -- the clocks of the evaluation are those after it
  have hs : (r.s.evaluate p e).1 = ((List.range (min e.sum.length maxFactories)).foldl (visit p e)
      ⟨r.s.begin e (min e.sum.length maxFactories), none, 0⟩).s := by
    rw [evaluate_fst, if_neg (not_or.mpr ⟨not_lt.mpr ha1, not_le.mpr ha2⟩)]
  have hscan := scanned (p := p) e (r.s.begin e (min e.sum.length maxFactories))
    (min e.sum.length maxFactories)
  have hsince : ∀ j < min e.sum.length maxFactories, (j : Int) ≠ e.active → e.good p j = true →
      (r.s.evaluate p e).1.qual j = true ∧ (r.s.evaluate p e).1.since j =
        e.clock p (r.s.begin e (min e.sum.length maxFactories)) j := by
    intro j hj hne hg
    rw [hs]
    exact ⟨(hscan.good j hj hne hg).1, (hscan.good j hj hne hg).2.1⟩
  have hinc : (r.s.evaluate p e).1.inc = active := by
    rw [hs]
    exact hscan.inc.trans (begin_inc ..)
  refine ⟨?_, fun l₁ q l₂ hl hn => ?_, fun j t₀ t hd hdw => ?_⟩
  · obtain ⟨q1, q2⟩ := hsince i k1 k2 k3
    have hd : Dwells p (r.s.evaluate p e).1.inc i ((r.s.evaluate p e).1.since i)
        ((r.s.evaluate p e).1.seen i) log := hnew.dwells i q1
    rw [hinc, q2] at hd
    obtain ⟨e', ds, before, hlog, -, hall, hget, hfresh⟩ := hd.period hnewSorted
    obtain rfl : e = e' := Rec.eval.inj (List.cons.inj hlog).1
    exact ⟨_, _, hd, k4, ds, before, hlog, hall, hget, hfresh⟩
  · obtain ⟨c1, c2⟩ := hclocks.cool_eval e hl hn
    rw [← c2]
    exact hcool c1
  obtain ⟨-, a2, a3, -⟩ := hnew.all active j t₀ t hd
  obtain ⟨e', he', hq⟩ := hd.head
  obtain rfl : e = e' := Rec.eval.inj he'
  refine hbest j hq.present hq.ne hq.good ?_
  have a3' : (r.s.evaluate p e).1.since j ≤ t₀ := a3
  rw [(hsince j hq.present hq.ne hq.good).2] at a3'
  change e.clock p (r.s.begin e (min e.sum.length maxFactories)) j + p.dwell ≤ now
  omega

/-- A dwell of 3 and a cooldown of 15, with samples fresh for 10. -/
def shortParams : SelectorParams where
  band ch act := 4 * ch ≤ 3 * act
  floor := 5
  dwell := 3
  cooldown := 15
  fresh := 10
  fresh_ge := by decide
  fresh_lt := by decide

/-- A slow active factory and a fast challenger. -/
def slowAndFast : List Summary := [⟨true, 100, 1, 99, 0⟩, ⟨true, 20, 1, 99, 0⟩]

theorem quality_switch_sound_challenger :
    ∃ t₀ t, Dwells shortParams 0 1 t₀ t ((runFrom (Run.step shortParams) Run.start
      [.evaluate 100 0 slowAndFast []]).step shortParams (.evaluate 103 0 slowAndFast [])).log ∧
      t₀ + 3 ≤ 103 := by
  have htime : Along (Run.step shortParams) Timely Run.start
      ([.evaluate 100 0 slowAndFast []] ++ [.evaluate 103 0 slowAndFast []]) := by
    refine ⟨fun x hx => absurd hx not_mem_nil, fun x hx => ?_, trivial⟩
    rw [mem_singleton.mp hx]
    decide
  obtain ⟨⟨t₀, t, hd, hle, -⟩, -⟩ := quality_switch_sound shortParams
    [.evaluate 100 0 slowAndFast []] 103 0 slowAndFast [] 1 htime (by decide)
  exact ⟨t₀, t, hd, hle⟩

end Rendr.Quality
