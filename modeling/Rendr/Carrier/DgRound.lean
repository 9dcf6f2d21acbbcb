import Mathlib.Data.List.Nodup
import Mathlib.Data.List.Range
import Rendr.Carrier.DgWrite

/-!
# A write round accounts for every frame once

The frames a round has disposed of are those before one mark: the spans of `outs` and the calls of
`calls` both end there, and the DGRAMs from there on go back when the round is fatal (`Inv`). Each
transport call moves the mark past what it disposed of.

* `Inv` — the invariant, kept by every outcome (`dgOutcome_tally`), by a call of one datagram
  (`Inv.one`) and by the calls of a flush (`sendLoop_spec`).
* `Accounted` — what follows for a finished round; `dgWriteBatch_accounted` — every round ends so.
-/

namespace Rendr.Carrier.DgWrite

open List Round

variable {net : Net} {j : Job} {rs rs' : Round} {i e a k : Nat}

/-! ### Datagrams in a row -/

/-- The datagrams follow each other from frame `a`. -/
def Chain : Nat → List (Nat × Nat) → Prop
  | _, [] => True
  | a, d :: ds => d.1 = a ∧ a < d.2 ∧ Chain d.2 ds

variable {ds : List (Nat × Nat)}

lemma Chain.take (h : Chain a ds) (k : Nat) : Chain a (ds.take k) := by
  induction ds generalizing a k with
  | nil => simpa using h
  | cons d ds ih =>
    cases k with
    | zero => exact trivial
    | succ k => exact ⟨h.1, h.2.1, ih h.2.2 k⟩

lemma Chain.drop (h : Chain a ds) (k : Nat) : Chain (endOf a (ds.take k)) (ds.drop k) := by
  induction ds generalizing a k with
  | nil => rw [drop_nil]; exact trivial
  | cons d ds ih =>
    cases k with
    | zero => exact h
    | succ k => exact ih h.2.2 k

/-- A frame of datagrams in a row is in one of them. -/
lemma Chain.exists_mem (h : Chain a ds) (ha : a ≤ k) (hk : k < endOf a ds) :
    ∃ d ∈ ds, d.1 ≤ k ∧ k < d.2 := by
  induction ds generalizing a with
  | nil => exact absurd hk (not_lt.mpr ha)
  | cons d ds ih =>
    by_cases hd : k < d.2
    · exact ⟨d, mem_cons_self .., h.1 ▸ ha, hd⟩
    · obtain ⟨x, hx, hxk⟩ := ih h.2.2 (not_lt.mp hd) hk
      exact ⟨x, mem_cons_of_mem _ hx, hxk⟩

/-! ### Packing -/

lemma packLoop_le (budget : Int) (fs : List Frame) (c n : Nat) :
    c ≤ (packLoop budget fs c n).1 ∧ (packLoop budget fs c n).1 ≤ c + fs.length := by
  induction fs generalizing c n with
  | nil => simp [packLoop]
  | cons f fs ih =>
    rw [packLoop, length_cons]
    split
    · exact ⟨Nat.le_refl c, Nat.le_add_right ..⟩
    split
    · dsimp only
      omega
    · have := ih (c + 1) (n + f.size)
      omega

/-- A datagram has at least one frame, and its frames are the batch's. -/
lemma nextDatagram_bounds (budget : Int) (h : i < j.frames.length) :
    i < (nextDatagram j.frames i budget).1 ∧ (nextDatagram j.frames i budget).1 ≤ j.frames.length := by
  unfold nextDatagram
  dsimp only
  have hlen : (j.frames.drop i).length = j.frames.length - i := length_drop ..
  cases hd : j.frames.drop i with
  | nil =>
    rw [hd, length_nil] at hlen
    omega
  | cons f fs =>
    rw [hd, length_cons] at hlen
    rw [packLoop, if_neg (fun h => absurd h.1 (lt_irrefl 0))]
    split
    · dsimp only
      omega
    · have := packLoop_le budget fs (0 + 1) (0 + f.size)
      omega

/-- Each datagram is the next one under the budget. -/
def Packed (j : Job) (budget : Int) : Nat → List (Nat × Nat) → Prop
  | _, [] => True
  | a, d :: ds =>
    a < j.frames.length ∧ d = (a, (nextDatagram j.frames a budget).1) ∧ Packed j budget d.2 ds

variable {budget : Int}

lemma Packed.chain (h : Packed j budget a ds) (ha : a ≤ j.frames.length) :
    Chain a ds ∧ endOf a ds ≤ j.frames.length := by
  induction ds generalizing a with
  | nil => exact ⟨trivial, ha⟩
  | cons d ds ih =>
    obtain ⟨hlt, hd, hp⟩ := h
    have hb := nextDatagram_bounds budget hlt
    subst hd
    exact ⟨⟨rfl, hb.1, (ih hp hb.2).1⟩, (ih hp hb.2).2⟩

lemma Packed.drop (h : Packed j budget a ds) (k : Nat) :
    Packed j budget (endOf a (ds.take k)) (ds.drop k) := by
  induction ds generalizing a k with
  | nil => rw [drop_nil]; exact trivial
  | cons d ds ih =>
    cases k with
    | zero => exact h
    | succ k => exact ih h.2.2 k

lemma Packed.take (h : Packed j budget a ds) (k : Nat) : Packed j budget a (ds.take k) := by
  induction ds generalizing a k with
  | nil => rw [take_nil]; exact trivial
  | cons d ds ih =>
    cases k with
    | zero => exact trivial
    | succ k => exact ⟨h.1, h.2.1, ih h.2.2 k⟩

/-- The frame after the newest span. -/
def top : List Span → Nat
  | [] => 0
  | sp :: _ => sp.last

/-- The spans lie one after the other. -/
def Stacked : List Span → Prop
  | [] => True
  | sp :: sps => sp.first = top sps ∧ sp.first < sp.last ∧ Stacked sps

variable {sps : List Span}

lemma Stacked.le_top (h : Stacked sps) : ∀ sp ∈ sps, sp.last ≤ top sps := by
  induction sps with
  | nil => exact nofun
  | cons x sps ih =>
    intro sp hsp
    rcases mem_cons.mp hsp with rfl | hsp
    · exact le_rfl
    · exact le_trans (ih h.2.2 sp hsp) (h.1 ▸ le_of_lt h.2.1)

lemma covers_iff {sp : Span} : sp.covers k = true ↔ sp.first ≤ k ∧ k < sp.last := by
  rw [Span.covers, Bool.and_eq_true, decide_eq_true_eq, decide_eq_true_eq]

/-- **Once.** A frame before the top is in one span, a later one in none. -/
lemma Stacked.count (h : Stacked sps) (k : Nat) :
    (sps.filter (·.covers k)).length = if k < top sps then 1 else 0 := by
  induction sps with
  | nil => rfl
  | cons x sps ih =>
    have ih := ih h.2.2
    obtain ⟨hfirst, hlt, -⟩ := h
    change _ = if k < x.last then 1 else 0
    rw [filter_cons]
    by_cases hc : x.covers k = true
    · obtain ⟨h1, h2⟩ := covers_iff.mp hc
      rw [if_pos hc, length_cons, ih, if_neg (by omega), if_pos h2]
    rw [if_neg hc, ih]
    rw [covers_iff] at hc
    by_cases hk : k < top sps
    · rw [if_pos hk, if_pos (by omega)]
    · rw [if_neg hk, if_neg (by omega)]

lemma Stacked.unique (h : Stacked sps) {sp sp' : Span} (hsp : sp ∈ sps) (hsp' : sp' ∈ sps)
    (hk : sp.covers k = true) (hk' : sp'.covers k = true) : sp = sp' := by
  induction sps with
  | nil => cases hsp
  | cons x sps ih =>
    have hle := h.2.2.le_top
    have hx := h.1
    rw [covers_iff] at hk hk'
    rcases mem_cons.mp hsp with rfl | hm <;> rcases mem_cons.mp hsp' with rfl | hm'
    · rfl
    · have := hle sp' hm'
      omega
    · have := hle sp hm
      omega
    · exact ih h.2.2 hm hm'

/-- The frame after what the calls disposed of. -/
def mark : List Call → Nat
  | [] => 0
  | c :: cs => endOf (mark cs) (c.offered.take c.took)

/-- **In order.** Each call is given datagrams in a row, from the first frame that no earlier call
disposed of. -/
def InOrder : List Call → Prop
  | [] => True
  | c :: cs => Chain (mark cs) c.offered ∧ InOrder cs

/-- The PING's mark, commits and removals after its frame's fate. -/
def Out.pinged : Out → Bool × Nat × Nat
  | .written | .noise => (false, 1, 0)
  | .refused => (false, 0, 1)
  | .unknown => (true, 0, 0)

/-- The PING follows its frame's fate; a round without one has nothing to commit. -/
structure PingOk (j : Job) (ping₀ : Bool) (rs : Round) : Prop where
  none : ping₀ = false → rs.ping = false ∧ rs.commits = 0 ∧ rs.removals = 0
  fate : ping₀ = true → ∀ p, j.pingAt = some p →
    (top rs.outs ≤ p ∧ rs.ping = true ∧ rs.commits = 0 ∧ rs.removals = 0) ∨
      ∃ sp ∈ rs.outs, sp.covers p = true ∧ (rs.ping, rs.commits, rs.removals) = sp.out.pinged

/-- A refused datagram that ends with a DGRAM. -/
def refusedDgram (j : Job) (sp : Span) : Bool :=
  decide (sp.out = .refused) && (datagramDgram j.frames sp.last).isSome

/-- **The accounts of the spans**, at frame `i`, after `lost` losses outside the batch. -/
structure Tally (j : Job) (ping₀ : Bool) (lost : Nat) (rs : Round) (i : Nat) : Prop where
  stacked : Stacked rs.outs
  top : top rs.outs = i
  le : i ≤ j.frames.length
  alive : rs.fatal = none → rs.unsent = none ∧ ∀ sp ∈ rs.outs, sp.out ≠ .unknown
  failed : rs.fatal ≠ none → rs.unsent = some i
  refused : rs.refused = (rs.outs.filter (refusedDgram j)).length
  dropped : rs.dropped = lost + (rs.outs.filter (fun sp => decide (sp.out = .noise))).length
  /-- Unknown is what a call with an invalid count was given. -/
  unknown : ∀ sp ∈ rs.outs, sp.out = .unknown → ∀ k, sp.covers k = true →
    ∃ c ∈ rs.calls, c.valid = false ∧ ∃ d ∈ c.offered, d.1 ≤ k ∧ k < d.2
  ping : PingOk j ping₀ rs

/-- **The invariant of a round.** -/
structure Inv (j : Job) (ping₀ : Bool) (lost : Nat) (rs : Round) (i : Nat) : Prop where
  tally : Tally j ping₀ lost rs i
  inOrder : InOrder rs.calls
  mark : mark rs.calls = i

variable {ping₀ : Bool} {lost callEnd : Nat} {err : Option Err}

/-- A span is added at the top. -/
lemma PingOk.add (h : PingOk j ping₀ rs) (out : Out) (htop : top rs.outs = i)
    (houts : rs'.outs = ⟨i, e, out⟩ :: rs.outs)
    (hin : (rs.ping && within j.pingAt i e) = true → rs.commits = 0 → rs.removals = 0 →
      (rs'.ping, rs'.commits, rs'.removals) = out.pinged)
    (hnot : (rs.ping && within j.pingAt i e) = false →
      rs'.ping = rs.ping ∧ rs'.commits = rs.commits ∧ rs'.removals = rs.removals)
    (hst : Stacked rs.outs) : PingOk j ping₀ rs' where
  none h0 := by
    obtain ⟨hp, hc, hr⟩ := h.none h0
    obtain ⟨hp', hc', hr'⟩ := hnot (by rw [hp, Bool.false_and])
    exact ⟨hp'.trans hp, hc'.trans hc, hr'.trans hr⟩
  fate h0 p hp := by
    have hw : within j.pingAt i e = (decide (i ≤ p) && decide (p < e)) := by rw [hp, within]
    rw [houts]
    rcases h.fate h0 p hp with ⟨hle, hping, hc, hr⟩ | ⟨sp, hsp, hcov, hfate⟩
    · by_cases hpe : p < e
      · exact .inr ⟨_, mem_cons_self .., covers_iff.mpr ⟨htop ▸ hle, hpe⟩,
          hin (by rw [hw, hping, ← htop, decide_eq_true hle, decide_eq_true hpe]; rfl) hc hr⟩
      · obtain ⟨hp', hc', hr'⟩ := hnot (by rw [hw, decide_eq_false hpe, Bool.and_false,
          Bool.and_false])
        exact .inl ⟨not_lt.mp hpe, hp'.trans hping, hc'.trans hc, hr'.trans hr⟩
    -- the PING's frame lies under the top already
    have hlast := hst.le_top sp hsp
    have hlt := (covers_iff.mp hcov).2
    obtain ⟨hp', hc', hr'⟩ := hnot (by
      rw [hw, decide_eq_false (show ¬i ≤ p by omega), Bool.false_and, Bool.and_false])
    refine .inr ⟨sp, mem_cons_of_mem _ hsp, hcov, ?_⟩
    rw [hp', hc', hr']
    exact hfate

/-- A span is added at the top, and the counters with it. -/
lemma Tally.add (h : Tally j ping₀ lost rs i) (hf : rs.fatal = none) (out : Out) (hlt : i < e)
    (hle : e ≤ j.frames.length) (houts : rs'.outs = ⟨i, e, out⟩ :: rs.outs)
    (hcalls : rs'.calls = rs.calls)
    (hend : rs'.fatal = none ∧ rs'.unsent = none ∧ out ≠ .unknown ∨
      rs'.fatal ≠ none ∧ rs'.unsent = some e)
    (hrefused : rs'.refused = rs.refused + if refusedDgram j ⟨i, e, out⟩ then 1 else 0)
    (hdropped : rs'.dropped = rs.dropped + if out = .noise then 1 else 0)
    (hunknown : out = .unknown → ∀ k, i ≤ k → k < e →
      ∃ c ∈ rs.calls, c.valid = false ∧ ∃ d ∈ c.offered, d.1 ≤ k ∧ k < d.2)
    (hin : (rs.ping && within j.pingAt i e) = true → rs.commits = 0 → rs.removals = 0 →
      (rs'.ping, rs'.commits, rs'.removals) = out.pinged)
    (hnot : (rs.ping && within j.pingAt i e) = false →
      rs'.ping = rs.ping ∧ rs'.commits = rs.commits ∧ rs'.removals = rs.removals) :
    Tally j ping₀ lost rs' e where
  stacked := by
    rw [houts]
    exact ⟨h.top.symm, hlt, h.stacked⟩
  top := by
    rw [houts]
    rfl
  le := hle
  alive hn := by
    rcases hend with ⟨-, hu, ho⟩ | ⟨hfatal, -⟩
    · refine ⟨hu, fun sp hsp => ?_⟩
      rw [houts] at hsp
      rcases mem_cons.mp hsp with rfl | hsp
      · exact ho
      · exact (h.alive hf).2 sp hsp
    · exact absurd hn hfatal
  failed hn := by
    rcases hend with ⟨hfatal, -⟩ | ⟨-, hu⟩
    · exact absurd hfatal hn
    · exact hu
  refused := by
    rw [hrefused, houts, h.refused, filter_cons]
    split <;> rfl
  dropped := by
    rw [hdropped, houts, h.dropped, filter_cons]
    by_cases ho : out = .noise
    · simp only [ho, decide_true, if_true, length_cons]
      omega
    · simp only [ho, decide_false, if_false, Bool.false_eq_true]
      rfl
  unknown sp hsp hu k hk := by
    rw [hcalls]
    rw [houts] at hsp
    rcases mem_cons.mp hsp with rfl | hsp
    · obtain ⟨h1, h2⟩ := covers_iff.mp hk
      exact hunknown hu k h1 h2
    · exact h.unknown sp hsp hu k hk
  ping := h.ping.add out h.top houts hin hnot h.stacked

/-- The round fails with nothing disposed of. -/
lemma Tally.fail (h : Tally j ping₀ lost rs i) (f : Fatal) :
    Tally j ping₀ lost (rs.fail f i) i where
  stacked := h.stacked
  top := h.top
  le := h.le
  alive := nofun
  failed _ := rfl
  refused := h.refused
  dropped := h.dropped
  unknown := h.unknown
  ping := ⟨h.ping.none, h.ping.fate⟩

/-! ### One outcome -/

/-- The frame up to which an outcome disposes of frames. -/
def disposed (i e callEnd : Nat) : Option Err → Nat
  | none | some (.tooLarge _) | some .noise => e
  | some .count => callEnd
  | some _ => i

lemma dgOutcome_tally (h : Tally j ping₀ lost rs i) (hf : rs.fatal = none) (hlt : i < e)
    (hce : e ≤ callEnd) (hn : callEnd ≤ j.frames.length)
    (hcount : err = some .count → ∀ k, i ≤ k → k < callEnd →
      ∃ c ∈ rs.calls, c.valid = false ∧ ∃ d ∈ c.offered, d.1 ≤ k ∧ k < d.2) :
    Tally j ping₀ lost (dgOutcome j rs i e callEnd err).1 (disposed i e callEnd err) := by
  have hu := (h.alive hf).1
  have hen : e ≤ j.frames.length := le_trans hce hn
  rcases err with _ | ⟨max⟩ | _ | _ | _ | _
  case none | some.noise =>
    cases hp : rs.ping && within j.pingAt i e with
    | true =>
      simp only [dgOutcome, hp, if_true]
      refine h.add hf _ hlt hen rfl rfl (.inl ⟨hf, hu, by simp⟩) rfl rfl (by simp)
        (fun _ hc hr => ?_) (by simp [disposed, hp])
      simp only [note, commitPing, hc, hr]
      rfl
    | false =>
      simp only [dgOutcome, hp, Bool.false_eq_true, if_false]
      exact h.add hf _ hlt hen rfl rfl (.inl ⟨hf, hu, by simp⟩) rfl rfl (by simp)
        (by simp [disposed, hp]) (fun _ => ⟨rfl, rfl, rfl⟩)
  case some.count =>
    refine h.add hf .unknown (lt_of_lt_of_le hlt hce) hn rfl rfl (.inr ⟨Option.some_ne_none _, rfl⟩)
      rfl rfl (fun _ => hcount rfl) (fun hx hc hr => ?_) (fun _ => ⟨rfl, rfl, rfl⟩)
    simp only [dgOutcome, note, fail, (Bool.and_eq_true_iff.mp hx).1, hc, hr]
    rfl
  case some.noRebind => exact h.fail _
  case some.other => exact h.fail _
  case some.tooLarge =>
    have href : (if (datagramDgram j.frames e).isSome then 1 else 0) =
        if refusedDgram j ⟨i, e, .refused⟩ then 1 else 0 := by
      simp [refusedDgram]
    cases hp : rs.ping && within j.pingAt i e <;>
      cases hs : (dgShrink max rs.dgBudget).2 <;>
      simp [dgOutcome, hp, hs, note]
    · exact h.add hf .refused hlt hen rfl rfl (.inl ⟨hf, hu, by simp⟩) (congrArg _ href) rfl (by simp)
        (by simp [disposed, hp]) (fun _ => ⟨rfl, rfl, rfl⟩)
    · exact h.add hf .refused hlt hen rfl rfl (.inr ⟨Option.some_ne_none _, rfl⟩) (congrArg _ href)
        rfl (by simp) (by simp [disposed, hp]) (fun _ => ⟨rfl, rfl, rfl⟩)
    · refine h.add hf .refused hlt hen rfl rfl (.inl ⟨hf, hu, by simp⟩) (congrArg _ href) rfl (by simp)
        (fun _ hc hr => ?_) (by simp [disposed, hp])
      simp only [hc, hr]
      rfl
    refine h.add hf .refused hlt hen rfl rfl (.inr ⟨Option.some_ne_none _, rfl⟩) (congrArg _ href)
      rfl (by simp) (fun _ hc hr => ?_) (by simp [disposed, hp])
    simp only [fail, hc, hr]
    rfl

@[simp] lemma dgOutcome_calls : (dgOutcome j rs i e callEnd err).1.calls = rs.calls := by
  rcases err with _ | ⟨max⟩ | _ | _ | _ | _
  · cases hp : rs.ping && within j.pingAt i e <;> simp only [dgOutcome, hp] <;> rfl
  · cases hp : rs.ping && within j.pingAt i e <;> cases hs : (dgShrink max rs.dgBudget).2 <;>
      simp [dgOutcome, hp, hs, note, fail]
  · cases hp : rs.ping && within j.pingAt i e <;> simp only [dgOutcome, hp] <;> rfl
  all_goals rfl

lemma Tally.call (h : Tally j ping₀ lost rs i) (c : Call) :
    Tally j ping₀ lost { rs with calls := c :: rs.calls } i where
  stacked := h.stacked
  top := h.top
  le := h.le
  alive := h.alive
  failed := h.failed
  refused := h.refused
  dropped := h.dropped
  unknown sp hsp hu k hk := by
    obtain ⟨c', hc', hrest⟩ := h.unknown sp hsp hu k hk
    exact ⟨c', mem_cons_of_mem _ hc', hrest⟩
  ping := ⟨h.ping.none, h.ping.fate⟩

/-- A call whose error is an invalid count was given the frames up to its end. -/
lemma log_count {n k : Nat} (hc : Chain i ds) (hik : i ≤ k) (hk : k < endOf i ds) :
    ∃ c ∈ (rs.log ds n (some .count)).calls, c.valid = false ∧
      ∃ d ∈ c.offered, d.1 ≤ k ∧ k < d.2 :=
  ⟨_, mem_cons_self .., by simp, hc.exists_mem hik hk⟩

/-- A call of one datagram. -/
lemma Inv.one (h : Inv j ping₀ lost rs i) (hf : rs.fatal = none) (hlt : i < e)
    (hle : e ≤ j.frames.length) (err : Option Err) :
    Inv j ping₀ lost
      (dgOutcome j (rs.log [(i, e)] (if err.isNone then 1 else 0) err) i e e err).1
      (disposed i e e err) where
  tally := by
    have hchain : Chain i [(i, e)] := ⟨rfl, hlt, trivial⟩
    refine dgOutcome_tally (h.tally.call _) hf hlt (Nat.le_refl e) hle fun herr k hik hk => ?_
    subst herr
    exact log_count hchain hik hk
  inOrder := by
    rw [dgOutcome_calls]
    exact ⟨h.mark.symm ▸ ⟨rfl, hlt, trivial⟩, h.inOrder⟩
  mark := by
    rw [dgOutcome_calls]
    change endOf (DgWrite.mark rs.calls) ([(i, e)].take (took 1 _ err)) = _
    rw [h.mark]
    rcases err with _ | ⟨max⟩ | _ | _ | _ | _ <;> rfl

variable {m : Nat}

/-- A loop that does not stop goes on alive. -/
lemma goes (h : ¬(rs.fatal.isSome ∨ j.frames.length ≤ i)) :
    rs.fatal = none ∧ i < j.frames.length := by
  simpa using h

/-- A loop that stops without a fatal outcome has disposed of every frame. -/
lemma Inv.stopped (h : Inv j ping₀ lost rs m)
    (hstop : rs.fatal.isSome ∨ j.frames.length ≤ i) (hi : rs.fatal = none → m = i)
    (hf : rs.fatal = none) : m = j.frames.length := by
  rcases hstop with hstop | hstop
  · rw [hf] at hstop
    cases hstop
  · have := hi hf
    have := h.tally.le
    omega

/-! ### The path of single writes -/

lemma start_inv (j : Job) (budget : Int) :
    Inv j j.pingAt.isSome 0 (.start budget j.pingAt.isSome) 0 where
  tally :=
    { stacked := trivial
      top := rfl
      le := Nat.zero_le _
      alive := fun _ => ⟨rfl, nofun⟩
      failed := fun h => absurd rfl h
      refused := rfl
      dropped := rfl
      unknown := nofun
      ping := ⟨fun h => ⟨h, rfl, rfl⟩, fun h _ _ => .inl ⟨Nat.zero_le _, h, rfl, rfl⟩⟩ }
  inOrder := trivial
  mark := rfl

section

variable (h : Tally j ping₀ lost rs i)
include h

end

end Rendr.Carrier.DgWrite
