import Rendr.Carrier.Rel

/-!
# The receiver of the reliable sublayer

A sequence of RELs is sealed with consecutive cseqs behind the receiver's cumulative point. The
receiver's state is tied to it by `RecvInv`: what it dispatched is an initial part of the sequence
(ending at its first CLOSE), and every held mark stands for the one cseq of the next eight with
that slot, whose payload the slot holds unchanged.

* `relDrain_spec`, `relOnRel_spec` — what one delivery does, whatever its order;
* `rel_delivery_order` — on a trunk, all deliveries of a set of RELs dispatch the same sequence.
-/

open Rendr.Octets Rendr.Wire

namespace Rendr.Carrier

open Function List

variable {σ : Type}

/-! ### Up to the first CLOSE -/

/-- The frames through the first CLOSE. -/
def upToClose : List Rel → List Rel
  | [] => []
  | r :: rs => if r.head.type = typeClose then [r] else r :: upToClose rs

/-- Whether a frame is a CLOSE. -/
def isClose (r : Rel) : Bool := r.head.type = typeClose

lemma upToClose_initial (rs : List Rel) : upToClose rs <+: rs := by
  induction rs with
  | nil => exact prefix_rfl
  | cons r rs ih =>
    unfold upToClose
    split_ifs
    · exact ⟨rs, rfl⟩
    · exact (prefix_cons_inj r).mpr ih

lemma upToClose_append {log : List Rel} (h : log.any isClose = false) (rs : List Rel) :
    upToClose (log ++ rs) = log ++ upToClose rs := by
  induction log with
  | nil => rfl
  | cons r log ih =>
    rw [any_cons, Bool.or_eq_false_iff] at h
    have hr : ¬ r.head.type = typeClose := by simpa [isClose] using h.1
    simp [upToClose, if_neg hr, ih h.2]

variable {sealed : List Rel}

/-- What follows a CLOSE does not count. -/
lemma upToClose_append_closed (h : sealed.any isClose = true) (rs : List Rel) :
    upToClose (sealed ++ rs) = upToClose sealed := by
  induction sealed with
  | nil => simp at h
  | cons x xs ih =>
    simp only [cons_append, upToClose]
    split_ifs with hx
    · rfl
    · rw [any_cons, Bool.or_eq_true] at h
      rw [ih (h.resolve_left (by simpa [isClose] using hx))]

variable {log sealed : List Rel}

/-- What was dispatched stays an initial part when more is sealed. -/
lemma prefix_upToClose_append (h : log <+: upToClose sealed)
    (rs : List Rel) : log <+: upToClose (sealed ++ rs) := by
  by_cases hcl : sealed.any isClose = true
  · rw [upToClose_append_closed hcl]
    exact h
  · rw [upToClose_append (by simpa using hcl)]
    exact (h.trans (upToClose_initial sealed)).trans ⟨_, rfl⟩

variable {r : Rel}

/-- The next frame of the sequence extends what was dispatched, as long as no CLOSE was. -/
lemma prefix_upToClose_snoc (hpre : log <+: upToClose sealed)
    (hopen : log.any isClose = false) (hr : sealed[log.length]? = some r) :
    log ++ [r] <+: upToClose sealed := by
  obtain ⟨rest, hrest⟩ := hpre.trans (upToClose_initial sealed)
  rw [← hrest] at hr ⊢
  rw [getElem?_append_right le_rfl, Nat.sub_self] at hr
  cases rest with
  | nil => simp at hr
  | cons x xs =>
    obtain rfl : x = r := by simpa using hr
    rw [upToClose_append hopen]
    refine (prefix_append_right_inj log).mpr ?_
    unfold upToClose
    split_ifs
    · exact prefix_rfl
    · exact ⟨upToClose xs, rfl⟩

/-- Once a CLOSE was dispatched the sequence is complete. -/
lemma eq_upToClose_of_closed (hpre : log <+: upToClose sealed)
    (hclosed : log.any isClose = true) : log = upToClose sealed := by
  induction sealed generalizing log with
  | nil => exact prefix_nil.mp hpre
  | cons r rs ih =>
    cases log with
    | nil => simp at hclosed
    | cons x log =>
      unfold upToClose at hpre ⊢
      split_ifs at hpre ⊢ with hr
      · obtain ⟨rfl, hnil⟩ := cons_prefix_cons.mp hpre
        rw [prefix_nil.mp hnil]
      · obtain ⟨rfl, htail⟩ := cons_prefix_cons.mp hpre
        rw [any_cons, Bool.or_eq_true] at hclosed
        rw [ih htail (hclosed.resolve_left (by simpa [isClose] using hr))]

/-! ### The invariant -/

/-- A REL a sender can seal: one the parser admits, small enough for a slot, and of a handshake
type only on a trunk. -/
structure Honest (mux : Bool) (r : Rel) : Prop where
  canonical : r.Canonical
  size : (putRel r).length ≤ relMaxPayload
  handshake : handshakeType r.head.type = true → mux = true

/-- The endpoint's state after the frames it was passed, in order, each without a violation. -/
inductive EpRun (E : Endpoint σ) (s₀ : σ) : List Rel → σ → Prop
  | nil : EpRun E s₀ [] s₀
  | snoc {log : List Rel} {c c' : RelRecv σ} {r : Rel} {fseq : UInt32} (h : EpRun E s₀ log c.ep)
      (hd : relDispatch E c r fseq = (c', none)) : EpRun E s₀ (log ++ [r]) c'.ep

/-- **The receiver against the sealed sequence.** `base` is the index of the cumulative point it
started from and `m` of the one it has now. -/
structure RecvInv (mux : Bool) (E : Endpoint σ) (s₀ : σ) (sealed : List Rel) (base m : Nat)
    (c : RelRecv σ) : Prop where
  /-- The sequence is numbered from the starting point. -/
  frames : ∀ i r, sealed[i]? = some r → r.head.cseq = wrap (base + 1 + i) ∧ Honest mux r
  cum : c.cum = wrap m
  count : m = base + c.log.length
  log : c.log <+: upToClose sealed
  closed : c.peerClosed = c.log.any isClose
  ep : EpRun E s₀ c.log c.ep
  /-- A held mark stands for one cseq of the window, and its slot holds that payload. -/
  held : ∀ j, c.heldMask j = true → ∃ n r, relIndex (wrap n) = j ∧ m + 1 ≤ n ∧ n ≤ m + 8 ∧
    base + 1 ≤ n ∧ sealed[n - base - 1]? = some r ∧ (c.held j).payload = putRel r

/-- Nothing held is due. -/
def Drained (m : Nat) (c : RelRecv σ) : Prop :=
  c.peerClosed = false → c.heldMask (relIndex (wrap (m + 1))) = false

/-- A cseq the receiver has taken: dispatched, or held. -/
def Taken (m : Nat) (c : RelRecv σ) (n : Nat) : Prop :=
  n ≤ m ∨ (n ≤ m + 8 ∧ c.heldMask (relIndex (wrap n)) = true)

variable {mux : Bool} {E : Endpoint σ} {s₀ : σ} {c : RelRecv σ} {base m : Nat}

lemma RecvInv.length_le
    (h : RecvInv mux E s₀ sealed base m c) : m ≤ base + sealed.length := by
  have := (h.log.trans (upToClose_initial sealed)).length_le
  have := h.count
  omega

/-- More sealed frames change nothing for the receiver. -/
lemma RecvInv.extend
    (h : RecvInv mux E s₀ sealed base m c) (hseq : r.head.cseq = wrap (base + 1 + sealed.length))
    (hr : Honest mux r) : RecvInv mux E s₀ (sealed ++ [r]) base m c where
  frames i x hx := by
    rcases Nat.lt_or_ge i sealed.length with hi | hi
    · rw [getElem?_append_left hi] at hx
      exact h.frames i x hx
    rw [getElem?_append_right hi] at hx
    have hi0 : i - sealed.length = 0 := by
      by_contra hne
      rw [getElem?_eq_none (by simp; omega)] at hx
      cases hx
    rw [hi0] at hx
    obtain rfl : r = x := by simpa using hx
    have : i = sealed.length := by omega
    subst this
    exact ⟨hseq, hr⟩
  cum := h.cum
  count := h.count
  log := prefix_upToClose_append h.log _
  closed := h.closed
  ep := h.ep
  held j hj := by
    obtain ⟨n, x, h1, h2, h3, h4, h5, h6⟩ := h.held j hj
    refine ⟨n, x, h1, h2, h3, h4, ?_, h6⟩
    have hlt : n - base - 1 < sealed.length := by
      by_contra hge
      rw [getElem?_eq_none (by omega)] at h5
      cases h5
    rw [getElem?_append_left hlt, h5]

/-! ### Dispatching the next frame -/

lemma relDispatch_log (E : Endpoint σ) (c : RelRecv σ) (r : Rel) (fseq : UInt32) :
    (relDispatch E c r fseq).1.log = c.log ++ [r] := by
  unfold relDispatch
  simp only
  split_ifs
  · split <;> rfl
  · split <;> rfl
  · rfl
  · rfl

variable {c c' : RelRecv σ} {fseq : UInt32}

/-- What a dispatch that goes on changes: the log, the CLOSE flag and the endpoint. -/
lemma relDispatch_go (h : relDispatch E c r fseq = (c', none)) :
    ∃ ep, c' = { c with
      log := c.log ++ [r], peerClosed := c.peerClosed || isClose r, ep := ep } := by
  unfold relDispatch at h
  simp only at h
  split_ifs at h with hc hg
  · split at h
    · cases h
    · cases h
      exact ⟨c.ep, by simp [isClose, hc]⟩
  · split at h
    · cases h
    · cases h
      exact ⟨c.ep, by simp [isClose, hc]⟩
  · cases h
    exact ⟨(E.control c.ep r fseq).1, by simp [isClose, hc]⟩
  · cases h

/-- How a reader of sealed frames stops: the dispatch of the next frame of the sequence refused
it. -/
structure Stopped (E : Endpoint σ) (s₀ : σ) (sealed : List Rel) (c' : RelRecv σ)
    (v : RelViolation) : Prop where
  log : c'.log <+: upToClose sealed
  ep : ∃ (c : RelRecv σ) (r : Rel) (fseq : UInt32), c'.log = c.log ++ [r] ∧
    EpRun E s₀ c.log c.ep ∧ relDispatch E c r fseq = (c', some v)

lemma RecvInv.stop {v : RelViolation}
    (h : RecvInv mux E s₀ sealed base m c) (hopen : c.peerClosed = false)
    (hr : sealed[m - base]? = some r) (hd : relDispatch E c r fseq = (c', some v)) :
    ∀ v', some v = some v' → Stopped E s₀ sealed c' v' := by
  rintro v' ⟨⟩
  have hlog := relDispatch_log E c r fseq
  rw [hd] at hlog
  refine ⟨?_, c, r, fseq, hlog, h.ep, hd⟩
  rw [hlog]
  refine prefix_upToClose_snoc h.log (by rw [← h.closed, hopen]) ?_
  rw [← hr, h.count]
  congr 1
  omega

/-- The next frame in order, dispatched and recorded. -/
lemma RecvInv.advance
    (h : RecvInv mux E s₀ sealed base m c) (hopen : c.peerClosed = false)
    (hr : sealed[m - base]? = some r) (hd : relDispatch E c r fseq = (c', none)) :
    RecvInv mux E s₀ sealed base (m + 1) (relAdvance c' (wrap (m + 1))) ∧
      (∀ x, m + 1 ≤ x → x ≤ m + 8 →
        ((relAdvance c' (wrap (m + 1))).heldMask (relIndex (wrap x)) = true ↔
          x ≠ m + 1 ∧ c.heldMask (relIndex (wrap x)) = true)) ∧
      ∀ x, Taken m c x → Taken (m + 1) (relAdvance c' (wrap (m + 1))) x := by
  have hep : EpRun E s₀ (c.log ++ [r]) c'.ep := h.ep.snoc hd
  obtain ⟨ep, rfl⟩ := relDispatch_go hd
  have hcount := h.count
  have hmask : ∀ x, m + 1 ≤ x → x ≤ m + 8 →
      (update c.heldMask (relIndex (wrap (m + 1))) false (relIndex (wrap x)) = true ↔
        x ≠ m + 1 ∧ c.heldMask (relIndex (wrap x)) = true) := by
    intro x h1 h2
    have hinj := relIndex_wrap_inj (a := x) (b := m + 1) (m := m + 1) h1 (by omega) le_rfl (by omega)
    by_cases hx : x = m + 1
    · subst hx
      simp
    · rw [update_of_ne (fun he => hx (hinj.mp he))]
      simp [hx]
  refine ⟨⟨h.frames, rfl, ?_, ?_, ?_, hep, ?_⟩, hmask, ?_⟩
  · simp only [relAdvance, length_append, length_singleton]
    omega
  · refine prefix_upToClose_snoc h.log (by rw [← h.closed, hopen]) ?_
    rw [← hr]
    congr 1
    omega
  · simp only [relAdvance, any_append, any_cons, any_nil, Bool.or_false, h.closed]
  · intro j hj
    simp only [relAdvance] at hj ⊢
    have hne : j ≠ relIndex (wrap (m + 1)) := by
      rintro rfl
      simp at hj
    rw [update_of_ne hne] at hj
    obtain ⟨n, x, h1, h2, h3, h4, h5, h6⟩ := h.held j hj
    have hn : n ≠ m + 1 := by
      rintro rfl
      exact hne h1.symm
    exact ⟨n, x, h1, by omega, by omega, h4, h5, h6⟩
  rintro x (hx | ⟨hx8, hx⟩)
  · exact Or.inl (by omega)
  · by_cases hle : x ≤ m + 1
    · exact Or.inl hle
    · exact Or.inr ⟨by omega, (hmask x (by omega) hx8).mpr ⟨by omega, hx⟩⟩

/-! ### The held successors -/

/-- A mark of the window names the frame of its cseq. -/
lemma RecvInv.held_at {base m n : Nat}
    (h : RecvInv mux E s₀ sealed base m c) (h1 : m + 1 ≤ n) (h2 : n ≤ m + 8)
    (hj : c.heldMask (relIndex (wrap n)) = true) :
    ∃ r, sealed[n - base - 1]? = some r ∧ (c.held (relIndex (wrap n))).payload = putRel r := by
  obtain ⟨n', r, hn', h1', h2', -, hr, hp⟩ := h.held _ hj
  obtain rfl : n' = n := (relIndex_wrap_inj h1' (by omega) h1 (by omega)).mp hn'
  exact ⟨r, hr, hp⟩

variable {out : Option RelViolation}

/-- **Draining.** With fuel for every held mark the loop ends at a gap or a CLOSE; what it
dispatches extends the sequence, and a cseq taken before stays taken. -/
lemma relDrain_spec {base : Nat} (E : Endpoint σ) (fuel : Nat) {m : Nat}
    (h : RecvInv mux E s₀ sealed base m c)
    (hfuel : ∀ x, m + 1 + fuel ≤ x → x ≤ m + 8 → c.heldMask (relIndex (wrap x)) = false)
    (hd : relDrain E fuel c = (c', out)) :
    (out = none → ∃ m', m ≤ m' ∧ RecvInv mux E s₀ sealed base m' c' ∧ Drained m' c' ∧
      (c'.peerClosed = false → ∀ x, Taken m c x → Taken m' c' x)) ∧
    ∀ v, out = some v → Stopped E s₀ sealed c' v := by
  induction fuel generalizing m c with
  | zero =>
    cases hd
    exact ⟨fun _ => ⟨m, le_rfl, h, fun _ => hfuel (m + 1) le_rfl (by omega), fun _ x hx => hx⟩,
      fun v hv => (by cases hv)⟩
  | succ fuel ih =>
    unfold relDrain at hd
    rw [h.cum, wrap_succ] at hd
    simp only at hd
    split_ifs at hd with hcl hheld
    · cases hd
      exact ⟨fun _ => ⟨m, le_rfl, h, fun ho => absurd hcl (by simp [ho]), fun _ x hx => hx⟩,
        fun v hv => (by cases hv)⟩
    · cases hd
      exact ⟨fun _ => ⟨m, le_rfl, h, fun _ => by simpa using hheld, fun _ x hx => hx⟩,
        fun v hv => (by cases hv)⟩
    have hopen : c.peerClosed = false := by simpa using hcl
    obtain ⟨r, hr, hp⟩ := h.held_at le_rfl (by omega) (by simpa using hheld)
    have hr' : sealed[m - base]? = some r := by rw [← hr]; congr 1; omega
    obtain ⟨-, hon⟩ := h.frames _ _ hr'
    rw [hp, parseRel_put hon.canonical] at hd
    simp only at hd
    split at hd
    · -- the endpoint refuses the frame
      rename_i c1 v hdis
      obtain ⟨rfl, rfl⟩ := Prod.mk.inj hd
      exact ⟨fun hn => (by cases hn), h.stop hopen hr' hdis⟩
    rename_i c1 hdis
    obtain ⟨hinv, hmask, htaken⟩ := h.advance hopen hr' hdis
    have hfuel' : ∀ x, m + 1 + 1 + fuel ≤ x → x ≤ m + 1 + 8 →
        (relAdvance c1 (wrap (m + 1))).heldMask (relIndex (wrap x)) = false := by
      intro x h1 h2
      by_cases hx8 : x ≤ m + 8
      · have hno := hfuel x (by omega) hx8
        have hiff := hmask x (by omega) hx8
        rw [hno] at hiff
        simpa using hiff
      -- the ninth cseq shares the slot just cleared
      have hsame : relIndex (wrap x) = relIndex (wrap (m + 1)) := by
        rw [Fin.ext_iff, relIndex_wrap, relIndex_wrap]
        omega
      simp [relAdvance, hsame]
    obtain ⟨hgo, hstop⟩ := ih hinv hfuel' hd
    refine ⟨fun hn => ?_, hstop⟩
    obtain ⟨m', hm', hinv', hdr, htk⟩ := hgo hn
    exact ⟨m', by omega, hinv', hdr, fun ho x hx => htk ho x (htaken x hx)⟩

/-! ### One delivery -/

/-- **One delivery of a sealed REL.** A copy within the window and less than `2 ^ 31` cseqs behind
the cumulative point leaves the receiver tied to the sequence, and its cseq taken. -/
lemma relOnRel_spec {base m n : Nat} (E : Endpoint σ)
    (h : RecvInv mux E s₀ sealed base m c) (hdr : Drained m c) (hn : base + 1 ≤ n)
    (hr : sealed[n - base - 1]? = some r) (hwin : n ≤ m + 8) (hage : m < n + 2 ^ 31)
    (hd : relOnRel mux E c (putRel r) fseq = (c', out)) :
    (out = none → ∃ m', m ≤ m' ∧ RecvInv mux E s₀ sealed base m' c' ∧ Drained m' c' ∧
      (c'.peerClosed = false → Taken m' c' n ∧ ∀ x, Taken m c x → Taken m' c' x)) ∧
    ∀ v, out = some v → Stopped E s₀ sealed c' v := by
  obtain ⟨hseq, hon⟩ := h.frames _ _ hr
  have hidx : base + 1 + (n - base - 1) = n := by omega
  rw [hidx] at hseq
  unfold relOnRel at hd
  rw [parseRel_put hon.canonical] at hd
  simp only [hseq, h.cum, int32_wrap_sub (show n < m + 2 ^ 31 by omega) (show m ≤ n + 2 ^ 31 by omega),
    relWindow] at hd
  split_ifs at hd with hdup hcl hbig hhs hearly
  · -- a duplicate: dispatched before, or held
    cases hd
    refine ⟨fun _ => ⟨m, le_rfl, { h with cum := rfl }, hdr,
      fun _ => ⟨?_, fun x hx => hx⟩⟩, fun v hv => (by cases hv)⟩
    rcases hdup with hle | ⟨-, -, hheld⟩
    · exact Or.inl (by omega)
    · exact Or.inr ⟨hwin, hheld⟩
  · cases hd
    exact ⟨fun _ => ⟨m, le_rfl, h, hdr, fun ho => absurd hcl (by simp [ho])⟩,
      fun v hv => (by cases hv)⟩
  · omega
  · exact absurd (hon.handshake hhs.1) (by simp [hhs.2])
  · -- an early one: held, whole, since it fits its slot
    cases hd
    refine ⟨fun _ => ⟨m, le_rfl, { h with cum := rfl, held := ?_ }, ?_,
      fun _ => ⟨Or.inr ⟨hwin, by simp⟩, ?_⟩⟩, fun v hv => (by cases hv)⟩
    · intro j hj
      simp only at hj ⊢
      by_cases hjn : j = relIndex (wrap n)
      · subst hjn
        refine ⟨n, r, rfl, by omega, hwin, hn, hr, ?_⟩
        simp [take_of_length_le hon.size]
      · rw [update_of_ne hjn] at hj ⊢
        exact h.held j hj
    · intro ho
      have hne : relIndex (wrap (m + 1)) ≠ relIndex (wrap n) := fun he => by
        have := (relIndex_wrap_inj (a := m + 1) (b := n) (m := m + 1) le_rfl (by omega)
          (by omega) (by omega)).mp he
        omega
      simp only [update_of_ne hne]
      exact hdr ho
    rintro x (hx | ⟨hx8, hx⟩)
    · exact Or.inl hx
    refine Or.inr ⟨hx8, ?_⟩
    by_cases hxn : relIndex (wrap x) = relIndex (wrap n)
    · simp [hxn]
    · simpa only [update_of_ne hxn] using hx
  -- the next one in order
  have hopen : c.peerClosed = false := by simpa using hcl
  obtain rfl : n = m + 1 := by omega
  have hr' : sealed[m - base]? = some r := by rw [← hr]; congr 1; omega
  split at hd
  next c1 v hdis =>
    obtain ⟨rfl, rfl⟩ := Prod.mk.inj hd
    exact ⟨fun hn => (by cases hn), h.stop hopen hr' hdis⟩
  rename_i c1 hdis
  obtain ⟨hinv, -, htaken⟩ := h.advance hopen hr' hdis
  obtain ⟨hgo, hstop⟩ := relDrain_spec E 8 hinv (fun x h1 h2 => by omega) hd
  refine ⟨fun hn => ?_, hstop⟩
  obtain ⟨m', hm', hinv', hdr', htk⟩ := hgo hn
  exact ⟨m', by omega, hinv', hdr', fun ho =>
    ⟨Or.inl hm', fun x hx => htk ho x (htaken x hx)⟩⟩

/-! ### Any order of delivery -/

/-- RELs of a list delivered one after the other, each by its place in the list and in a frame of
its own, until a violation stops the reader. -/
def deliver (mux : Bool) (E : Endpoint σ) (fs : List Rel) (c : RelRecv σ) :
    List (Fin fs.length × UInt32) → RelRecv σ × Option RelViolation
  | [] => (c, none)
  | (i, fseq) :: ds =>
    match relOnRel mux E c (putRel (fs.get i)) fseq with
    | (c, some v) => (c, some v)
    | (c, none) => deliver mux E fs c ds

/-- What was dispatched stays dispatched. -/
lemma RecvInv.log_prefix {base m m' : Nat}
    (h : RecvInv mux E s₀ sealed base m c) (h' : RecvInv mux E s₀ sealed base m' c') (hm : m ≤ m') :
    c.log <+: c'.log := by
  have h1 := h.count
  have h2 := h'.count
  exact prefix_of_prefix_length_le h.log h'.log (by omega)

/-- A receiver that has not seen a CLOSE had not seen one before. -/
lemma RecvInv.open_of_open {base m m' : Nat}
    (h : RecvInv mux E s₀ sealed base m c) (h' : RecvInv mux E s₀ sealed base m' c') (hm : m ≤ m')
    (ho : c'.peerClosed = false) : c.peerClosed = false := by
  rw [h'.closed] at ho
  rw [h.closed]
  obtain ⟨t, ht⟩ := h.log_prefix h' hm
  rw [← ht, any_append, Bool.or_eq_false_iff] at ho
  exact ho.1

section Order

variable {E : Endpoint σ} {s₀ : σ} {fs : List Rel} {base : Nat}

/-- The frames are accepted when they are dispatched in order, whichever copies arrive. -/
def Accepted (E : Endpoint σ) (s₀ : σ) (fs : List Rel) : Prop :=
  ∀ log s r, EpRun E s₀ log s → log ++ [r] <+: upToClose fs →
    ∀ c : RelRecv σ, c.ep = s → ∀ fseq, (relDispatch E c r fseq).2 = none

lemma deliver_spec (hk : fs.length ≤ relWindow) (hacc : Accepted E s₀ fs)
    (ds : List (Fin fs.length × UInt32)) {m : Nat}
    (h : RecvInv true E s₀ fs base m c) (hdr : Drained m c) :
    ∃ c' m', deliver true E fs c ds = (c', none) ∧ m ≤ m' ∧ RecvInv true E s₀ fs base m' c' ∧
      Drained m' c' ∧ (c'.peerClosed = false →
        (∀ x, Taken m c x → Taken m' c' x) ∧ ∀ d ∈ ds, Taken m' c' (base + 1 + d.1)) := by
  induction ds generalizing m c with
  | nil => exact ⟨c, m, rfl, le_rfl, h, hdr, fun _ => ⟨fun x hx => hx, by simp⟩⟩
  | cons d ds ih =>
    obtain ⟨i, fseq⟩ := d
    have hi := i.isLt
    have hcount := h.count
    have hlen := h.length_le
    unfold relWindow at hk
    have hget : fs[base + 1 + i.val - base - 1]? = some (fs.get i) := by
      have : base + 1 + i.val - base - 1 = i.val := by omega
      rw [this, getElem?_eq_getElem hi]
      rfl
    cases hd : relOnRel true E c (putRel (fs.get i)) fseq with
    | mk c1 out =>
      obtain ⟨hgo, hstop⟩ := relOnRel_spec E h hdr (by omega) hget (by omega) (by omega) hd
      cases out with
      | some v =>
        -- the sequence's frames are accepted, so the reader never stops
        obtain ⟨hlog, c0, r, f, hc0, hep, hdis⟩ := hstop v rfl
        have := hacc c0.log c0.ep r hep (hc0 ▸ hlog) c0 rfl f
        rw [hdis] at this
        cases this
      | none =>
        obtain ⟨m1, hm1, hinv1, hdr1, htk1⟩ := hgo rfl
        obtain ⟨c', m', hdel, hm', hinv', hdr', htk'⟩ := ih hinv1 hdr1
        refine ⟨c', m', by simp only [deliver, hd, hdel], by omega, hinv', hdr', fun ho => ?_⟩
        obtain ⟨hin, hold⟩ := htk1 (hinv1.open_of_open hinv' hm' ho)
        obtain ⟨hkeep, hds⟩ := htk' ho
        refine ⟨fun x hx => hkeep x (hold x hx), fun d hd => ?_⟩
        rcases mem_cons.mp hd with rfl | hd
        · exact hkeep _ hin
        · exact hds d hd

end Order

theorem rel_delivery_order (E : Endpoint σ) (c : RelRecv σ) (fs : List Rel)
    (hopen : c.peerClosed = false) (hheld : ∀ j, c.heldMask j = false) (hlog : c.log = [])
    (hk : fs.length ≤ relWindow)
    (hframes : ∀ i r, fs[i]? = some r → r.head.cseq = c.cum + 1 + UInt32.ofNat i ∧
      parseRel (putRel r) = .ok r ∧ (putRel r).length ≤ relMaxPayload)
    (hacc : Accepted E c.ep fs) (ds : List (Fin fs.length × UInt32))
    (hall : ∀ i, ∃ d ∈ ds, d.1 = i) :
    ∃ c', deliver true E fs c ds = (c', none) ∧ c'.log = upToClose fs := by
  have hcum : c.cum = wrap c.cum.toNat := (wrap_toNat c.cum).symm
  generalize hb : c.cum.toNat = base at hcum
  have hinv : RecvInv true E c.ep fs base base c := by
    refine ⟨?_, hcum, by simp [hlog], by simp [hlog], by simp [hlog, hopen],
      by rw [hlog]; exact .nil, fun j hj => by simp [hheld j] at hj⟩
    intro i r hr
    obtain ⟨hseq, hp, hsize⟩ := hframes i r hr
    refine ⟨?_, (rel_codec.put_parse _ _ hp).1, hsize, fun _ => rfl⟩
    rw [hseq, hcum, wrap_succ, wrap_add]
  obtain ⟨c', m', hdel, hm', hinv', hdr', htk⟩ :=
    deliver_spec hk hacc ds hinv (fun _ => hheld _)
  refine ⟨c', hdel, ?_⟩
  cases hcl : c'.peerClosed with
  | true => exact eq_upToClose_of_closed hinv'.log (hinv'.closed ▸ hcl)
  | false =>
    -- every cseq is taken and the first gap is not held, so there is no gap
    have hcount := hinv'.count
    have hlen : fs.length ≤ c'.log.length := by
      by_contra hlt
      obtain ⟨d, hd, hdi⟩ := hall ⟨m' - base, by omega⟩
      have hx := (htk hcl).2 d hd
      rw [hdi] at hx
      have hn : base + 1 + (m' - base) = m' + 1 := by omega
      simp only [hn] at hx
      rcases hx with hx | ⟨-, hx⟩
      · omega
      · rw [hdr' hcl] at hx
        cases hx
    have hle := (upToClose_initial fs).length_le
    exact hinv'.log.eq_of_length (by have := hinv'.log.length_le; omega)

/-- An endpoint that accepts everything. -/
def Endpoint.any : Endpoint Unit := ⟨fun s _ _ => (s, true)⟩

/-- Two RELs behind the cumulative point 0: a FIN, and an OPEN with `n` octets of metadata. -/
def finThenOpen (n : Nat) : List Rel :=
  [⟨⟨1, typeFin, 0, 1⟩, putFin 0⟩,
   ⟨⟨2, typeOpen, 0, 2⟩,
    (putOpen ⟨fun _ => 1, kindStream, 1, 0, 0, 0, 0, List.replicate n 7⟩).getD []⟩]

/-- The two delivered in their order. -/
def finFirst (n : Nat) : List (Fin (finThenOpen n).length × UInt32) :=
  [(⟨0, by simp [finThenOpen]⟩, 9), (⟨1, by simp [finThenOpen]⟩, 10)]

/-- The OPEN delivered first. -/
def openFirst (n : Nat) : List (Fin (finThenOpen n).length × UInt32) :=
  [(⟨1, by simp [finThenOpen]⟩, 9), (⟨0, by simp [finThenOpen]⟩, 10)]

/-- The OPEN held and dispatched behind the FIN it overtook. -/
theorem rel_delivery_order_reversed :
    ∃ c', deliver true Endpoint.any (finThenOpen 3) (RelRecv.init 0 ()) (openFirst 3)
      = (c', none) ∧ c'.log = finThenOpen 3 := by
  obtain ⟨c', h, hlog⟩ := rel_delivery_order Endpoint.any (RelRecv.init 0 ()) (finThenOpen 3) rfl
    (fun _ => rfl) rfl (by decide)
    (by
      have h2 : (finThenOpen 3).length = 2 := rfl
      intro i r hr
      have hi : i < 2 := (List.getElem?_eq_some_iff.mp hr).1
      interval_cases i
      · obtain rfl := Option.some.inj hr
        decide +kernel
      · obtain rfl := Option.some.inj hr
        decide +kernel)
    (by
      intro log s r _ hpre c _ fseq
      have hmem : r ∈ finThenOpen 3 :=
        (upToClose_initial _).subset (hpre.subset (by simp))
      simp only [finThenOpen, mem_cons, not_mem_nil, or_false] at hmem
      rcases hmem with rfl | rfl <;> rfl)
    (openFirst 3) (by decide)
  exact ⟨c', h, hlog⟩

/-- An OPEN of 300 octets of metadata is admitted by the parser, but is longer than a slot: held,
its payload is cut, and what is dispatched is not what arrived. -/
theorem rel_held_cut :
    (∀ r ∈ finThenOpen 300, parseRel (putRel r) = .ok r) ∧
    (deliver true Endpoint.any (finThenOpen 300) (RelRecv.init 0 ()) (finFirst 300)).2 = none ∧
    (deliver true Endpoint.any (finThenOpen 300) (RelRecv.init 0 ()) (finFirst 300)).1.log
      = finThenOpen 300 ∧
    (deliver true Endpoint.any (finThenOpen 300) (RelRecv.init 0 ()) (openFirst 300)).2 = none ∧
    ((deliver true Endpoint.any (finThenOpen 300) (RelRecv.init 0 ()) (openFirst 300)).1.log.map
      fun r => r.inner.length) = [8, relMaxPayload - relHeadLen] ∧
    ((finThenOpen 300).map fun r => r.inner.length) = [8, 332] := by
  decide +kernel

end Rendr.Carrier
