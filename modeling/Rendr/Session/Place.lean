import Rendr.Session.Queues

/-!
# Placement of a frame

A frame with a buffer of its own may be kept by reference: it then replaces the held segments it
covers. `heldIn` finds those segments; `HeldSplit` says what it finds. Together with the copying
functions this gives the specification of `place`, and of the functions that release segments.

* `place_spec`: `place` keeps the queues well formed and grows them by the frame;
* `place_inOrder`: a frame that starts at or before `rTail` is contiguous afterwards, and
  nothing is dropped;
* `shed_spec`, `releaseConsumed_spec`, `releaseRecv_spec`: what each release gives up.
-/

namespace Rendr

open List

namespace Queues

/-! ### Keeping a frame by reference -/

/-- How `heldIn` splits the out-of-order list at a frame's range `[start, stop)`: `L` ends at
or before `s0`, `M` lies inside `[s0, x)`, `R` starts at or behind `x` and holds `[x, stop)`. -/
structure HeldSplit (ooq : List Seg) (start stop : Nat) (h : HeldRange) (L M R : List Seg) :
    Prop where
  split : ooq = L ++ (M ++ R)
  a_eq : h.a = L.length
  b_eq : h.b = L.length + M.length
  before : ∀ sg ∈ L, sg.endOff ≤ h.s0
  start_le : start ≤ h.s0
  start_eq : h.s0 = start ∨ ∃ sg ∈ L, sg.off < start
  x_le : h.x ≤ stop
  inside : h.s0 < h.x → Asc h.s0 M ∧ lastEnd h.s0 M ≤ h.x
  behind : Asc h.x R
  covers : ∀ y, h.x ≤ y → y < stop → ∃ v, Holds R y v

/-- The scan walks `l` while `s0` of the record stays put: the lower bound `lo` is its own. -/
lemma heldScan_spec (stop : Nat) {lo : Nat} (l : List Seg) (h : HeldRange) (hl : Asc lo l)
    (hx : h.x = stop) :
    ∃ M R, l = M ++ R ∧ (heldScan stop l h).b = h.b + M.length ∧
      (heldScan stop l h).a = h.a ∧ (heldScan stop l h).s0 = h.s0 ∧ (heldScan stop l h).x ≤ stop ∧
      (M ≠ [] → lastEnd lo M ≤ (heldScan stop l h).x) ∧ Asc (heldScan stop l h).x R ∧
      ∀ y, (heldScan stop l h).x ≤ y → y < stop → ∃ v, Holds R y v := by
  induction l generalizing lo h with
  | nil =>
    refine ⟨[], [], rfl, rfl, rfl, rfl, le_of_eq hx, fun hM => absurd rfl hM, trivial, ?_⟩
    intro y h1 h2
    rw [heldScan] at h1
    omega
  | cons sg t ih =>
    obtain ⟨h1, h2, h3⟩ := hl
    rw [heldScan]
    split
    next hlt =>
      split
      · -- `sg` straddles the end of the range
        rename_i hstr
        refine ⟨[], sg :: t, rfl, rfl, rfl, rfl, le_of_lt hlt, fun hM => absurd rfl hM,
          ⟨le_rfl, h2, h3⟩, ?_⟩
        intro y hy1 hy2
        dsimp only at hy1
        obtain ⟨v, hv⟩ := Seg.has_of_bounds hy1 (by omega)
        exact ⟨v, (holds_cons ..).mpr (.inl hv)⟩
      rename_i hin
      obtain ⟨M, R, i1, i2, i3, i4, i5, i6, i7, i8⟩ := ih
        { h with b := h.b + 1, bytes := h.bytes + sg.b.length, charge := h.charge + sg.segCap }
        h3 hx
      refine ⟨sg :: M, R, by rw [i1]; rfl, ?_, i3, i4, i5, fun _ => ?_, i7, i8⟩
      · rw [i2, length_cons]
        show h.b + 1 + M.length = h.b + (M.length + 1)
        omega
      rw [lastEnd]
      by_cases hM : M = []
      · -- nothing follows inside the range: what follows starts behind `sg`
        subst hM
        rw [nil_append] at i1
        subst i1
        by_contra hc
        rw [lastEnd] at hc
        obtain ⟨v, hv⟩ := i8 (sg.endOff - 1) (by omega)
          (by have := Seg.lt_endOff h2; omega)
        have := h3.holds_bounds hv
        have := Seg.lt_endOff h2
        omega
      · exact i6 hM
    next hge =>
    refine ⟨[], sg :: t, rfl, rfl, rfl, rfl, le_of_eq hx, fun hM => absurd rfl hM,
      ⟨by omega, h2, h3⟩, ?_⟩
    intro y hy1 hy2
    omega

/-- **The held range.** `heldIn` finds the split of the out-of-order list at the range. -/
lemma heldIn_spec {lo : Nat} {ooq : List Seg} (start stop : Nat) (h : Asc lo ooq) :
    ∃ L M R, HeldSplit ooq start stop (heldIn ooq start stop) L M R := by
  obtain ⟨hb, ha⟩ := h.split_after start
  -- the scan starts at index `i` with lower bound `s0`
  have scan : ∀ s0 i, i ≤ ooq.length → start ≤ s0 →
      (s0 = start ∨ ∃ sg ∈ ooq.take i, sg.off < start) →
      (∀ sg ∈ ooq.take i, sg.endOff ≤ s0) → Asc s0 (ooq.drop i) →
      ∃ L M R, HeldSplit ooq start stop
        (heldScan stop (ooq.drop i) { s0 := s0, x := stop, a := i, b := i, bytes := 0, charge := 0 })
        L M R := by
    intro s0 i hi hs0 hor hbef hasc
    obtain ⟨M, R, i1, i2, i3, i4, i5, i6, i7, i8⟩ := heldScan_spec stop (ooq.drop i)
      { s0 := s0, x := stop, a := i, b := i, bytes := 0, charge := 0 } hasc rfl
    refine ⟨ooq.take i, M, R, ⟨?_, ?_, ?_, ?_, ?_, by rw [i4]; exact hor, i5, ?_, i7, i8⟩⟩
    · rw [← i1, take_append_drop]
    · rw [i3, length_take, Nat.min_eq_left hi]
    · rw [i2, length_take, Nat.min_eq_left hi]
    · rw [i4]
      exact hbef
    · rw [i4]
      exact hs0
    intro hlt
    rw [i1] at hasc
    rw [i4] at hlt ⊢
    refine ⟨(asc_append.mp hasc).1, ?_⟩
    by_cases hM : M = []
    · subst hM
      exact le_of_lt hlt
    · exact i6 hM
  rw [heldIn]
  cases hsg : ooq[after start ooq]? with
  | none =>
    have hlen : ooq.length ≤ after start ooq := List.getElem?_eq_none_iff.mp hsg
    have hle : after start ooq ≤ ooq.length := by
      rw [after, search_eq (h.pairwise_after start)]
      exact (takeWhile_sublist _).length_le
    refine scan start (after start ooq) hle le_rfl (.inl rfl) hb ?_
    rw [drop_eq_nil_of_le hlen]
    trivial
  | some sg =>
    have hlt : after start ooq < ooq.length := (List.getElem?_eq_some_iff.mp hsg).1
    have hget : ooq[after start ooq] = sg := (List.getElem?_eq_some_iff.mp hsg).2
    have hdrop : ooq.drop (after start ooq) = sg :: ooq.drop (after start ooq + 1) := by
      rw [← hget, getElem_cons_drop]
    have hend : start < sg.endOff := ha sg (by rw [hdrop]; simp)
    have hasc := h
    rw [← take_append_drop (after start ooq) ooq, hdrop] at hasc
    obtain ⟨_, _, h2, h3⟩ := asc_append.mp hasc
    by_cases hstr : sg.off < start
    · -- `sg` straddles the start of the range
      simp only [if_pos hstr]
      have htake : ooq.take (after start ooq + 1) = ooq.take (after start ooq) ++ [sg] := by
        rw [take_add_one, hsg]
        rfl
      refine scan sg.endOff (after start ooq + 1) hlt (le_of_lt hend)
        (.inr ⟨sg, by rw [htake]; simp, hstr⟩) ?_ h3
      intro s hs
      rw [htake] at hs
      rcases mem_append.mp hs with hs | hs
      · have := hb s hs
        omega
      · rw [mem_singleton.mp hs]
    simp only [if_neg hstr]
    refine scan start (after start ooq) (le_of_lt hlt) le_rfl (.inl rfl) hb ?_
    rw [hdrop]
    exact ⟨by omega, h2, h3⟩

lemma cut_middle (L M R : List Seg) :
    cut L.length (L.length + M.length) (L ++ (M ++ R)) = L ++ R := by
  rw [cut]
  split
  · have : M = [] := length_eq_zero_iff.mp (by omega)
    simp [this]
  · rw [take_left, ← drop_drop, drop_left, drop_left]

variable {f : DataFrame} {h : HeldRange}

lemma refSeg_endOff {c : Nat} (hc : c ∈ f.buf)
    (h1 : f.off ≤ h.s0) (h2 : h.s0 ≤ h.x) (h3 : h.x ≤ f.off + f.p.length) :
    (refSeg f c hc h).endOff = h.x := by
  simp only [Seg.endOff, refSeg]
  rw [length_slice (by omega)]
  omega

lemma refSeg_has {c : Nat} (hc : c ∈ f.buf)
    (h1 : f.off ≤ h.s0) (h2 : h.s0 ≤ h.x) (h3 : h.x ≤ f.off + f.p.length) (y : Nat) (v : Byte) :
    (refSeg f c hc h).Has y v ↔ h.s0 ≤ y ∧ y < h.x ∧ f.p[y - f.off]? = some v := by
  constructor
  · intro hv
    have hb := hv.bounds
    rw [refSeg_endOff hc h1 h2 h3] at hb
    exact ⟨hb.1, hb.2, slice_payload h1 hb.1 hv.2⟩
  rintro ⟨h4, h5, h6⟩
  refine ⟨h4, ?_⟩
  simp only [refSeg]
  rw [getElem?_slice, if_pos (by omega), ← h6]
  congr 1
  omega

/-- The agreement of a frame with the out-of-order bytes of its range. -/
def Agrees (f : DataFrame) (l : List Seg) : Prop :=
  ∀ x v, f.off ≤ x → x < f.off + f.p.length → Holds l x v → f.p[x - f.off]? = some v

section KeepRef

variable {a : Nat} {q : Queues} {f : DataFrame} {c : Nat} {hc : c ∈ f.buf} {h : HeldRange}
  {L M R : List Seg}

/-- A frame kept by reference replaces exactly what it holds itself. -/
lemma HeldSplit.keepRef_spec
    (hs : HeldSplit q.ooq (max f.off q.rTail) (f.off + f.p.length) h L M R) (hw : q.Wf a)
    (hlt : h.s0 < h.x) (hag : Agrees f q.ooq) (lim : Int) (n : Nat) (left : Int) :
    (q.keepRef lim f c hc h n left).1.Wf a ∧
      Grows f.off f.p q (q.keepRef lim f c hc h n left).1 ∧
      (h.s0 = q.rTail → h.x ≤ (q.keepRef lim f c hc h n left).1.rTail ∧
        (q.keepRef lim f c hc h n left).1.oooDropped = q.oooDropped) := by
  have hoff : f.off ≤ h.s0 := le_trans (Nat.le_max_left _ _) hs.start_le
  have htail : q.rTail ≤ h.s0 := le_trans (Nat.le_max_right _ _) hs.start_le
  obtain ⟨hM, hMend⟩ := hs.inside hlt
  have hend := refSeg_endOff hc hoff (le_of_lt hlt) hs.x_le
  have hhas := refSeg_has hc hoff (le_of_lt hlt) hs.x_le
  have hne : (refSeg f c hc h).b ≠ [] := by
    intro hnil
    rw [Seg.endOff, hnil] at hend
    exact absurd hend (Nat.ne_of_lt hlt)
  have hcut : (q.releaseOOORange h.a h.b).ooq = L ++ R := by
    simp only [releaseOOORange, hs.a_eq, hs.b_eq]
    rw [hs.split]
    exact cut_middle L M R
  -- the bytes of the replaced segments are the frame's own
  have hMsub : ∀ {x v}, Holds M x v → (refSeg f c hc h).Has x v := by
    intro x v hx
    have hb := hM.holds_bounds hx
    refine (hhas x v).mpr ⟨hb.1, by omega, hag x v (by omega) ?_ ?_⟩
    · have := hs.x_le
      omega
    · rw [hs.split]
      simp only [holds_append]
      exact .inr (.inl hx)
  have hheld : ∀ {x v}, Holds q.ooq x v ↔ Holds L x v ∨ Holds M x v ∨ Holds R x v := by
    intro x v
    rw [hs.split]
    simp only [holds_append]
  have hinq : (q.releaseOOORange h.a h.b).inq = q.inq := rfl
  have hrt : (q.releaseOOORange h.a h.b).rTail = q.rTail := rfl
  have hdr : (q.releaseOOORange h.a h.b).oooDropped = q.oooDropped := rfl
  rw [keepRef]
  dsimp only
  generalize q.releaseOOORange h.a h.b = q1 at hcut hinq hrt hdr
  split
  · -- in order: the out-of-order list has no segment before the frame
    rename_i heq
    have hL : L = [] := by
      apply eq_nil_iff_forall_not_mem.mpr
      intro sg hsg
      have hmem : sg ∈ q.ooq := by rw [hs.split]; simp [hsg]
      have h1 := hs.before sg hsg
      obtain ⟨h2, h3, _⟩ := hw.asc.bounds hmem
      have := Seg.lt_endOff h3
      omega
    subst hL
    rw [nil_append] at hcut
    have hchain : Chain a (q1.inq.push (refSeg f c hc h)).toList h.x := by
      rw [hinq, ← hend]
      refine chain_push ?_ hne
      rw [show (refSeg f c hc h).off = q.rTail from heq]
      exact hw.chain
    set q2 : Queues := { q1 with
      inq := q1.inq.push (refSeg f c hc h)
      oooCap := q1.oooCap + c
      rxBytes := q1.rxBytes + (h.x - h.s0)
      rTail := h.x }
    obtain ⟨p1, p2, p3, p5⟩ := promote_spec (q := q2) left hchain (push_n_pos _ _)
      (by rw [show q2.ooq = R from hcut]; exact hs.behind)
    have p4 : (promote q2 left).1.oooDropped = q1.oooDropped := promoteLoop_dropped q1.ooq q2 left
    generalize promote q2 left = r at p1 p2 p3 p4 p5
    have p3 : ∀ x v, r.1.Held x v ↔
        (Holds q.inq.toList x v ∨ (refSeg f c hc h).Has x v) ∨ Holds R x v := by
      intro x v
      rw [p3]
      simp [q2, Held, hcut, hinq, Ring.toList_push, holds_append, holds_cons, holds_nil]
    have htx : q.rTail ≤ h.x := le_trans htail (le_of_lt hlt)
    refine ⟨p1, ⟨fun hx => (p3 _ _).mpr ?_, fun hx => ?_, le_trans htx p2,
      fun hr hb => p5 (le_trans hr htx) ?_⟩, fun _ => ⟨p2, p4.trans hdr⟩⟩
    · rcases hx with hx | hx
      · exact .inl (.inl hx)
      rcases hheld.mp hx with hx | hx | hx
      · simp at hx
      · exact .inl (.inr (hMsub hx))
      · exact .inr hx
    · rcases (p3 _ _).mp hx with (hx | hx) | hx
      · exact .inl (.inl hx)
      · obtain ⟨h1, _, h3⟩ := (hhas _ _).mp hx
        exact .inr ⟨by omega, h3⟩
      · exact .inl (.inr (hheld.mpr (.inr (.inr hx))))
    · exact behind_push (by rw [hinq]; exact hb) (by omega)
  rename_i hne0
  split
  · -- the charge would pass its limit: the new bytes are dropped
    exact ⟨⟨hw.chain, hw.asc⟩, ⟨id, Or.inl, le_rfl, fun _ => id⟩, fun h => absurd h hne0⟩
  have hooq : insertAt h.a (refSeg f c hc h) q1.ooq = L ++ refSeg f c hc h :: R := by
    rw [hcut, hs.a_eq, insertAt, take_left, drop_left]
  have hasc : Asc (q.rTail + 1) (L ++ refSeg f c hc h :: R) := by
    have hLasc := hw.asc
    rw [hs.split] at hLasc
    refine asc_append.mpr ⟨(asc_append.mp hLasc).1, ?_, hne, by rw [hend]; exact hs.behind⟩
    exact lastEnd_le_of_forall (show q.rTail + 1 ≤ h.s0 by omega) hs.before
  rw [hooq]
  obtain ⟨m1, m2, m3, m4⟩ := mergeFollowers_spec
    (q := { q1 with ooq := L ++ refSeg f c hc h :: R, oooCap := q1.oooCap + c }) h.a left hasc
  generalize mergeFollowers
    { q1 with ooq := L ++ refSeg f c hc h :: R, oooCap := q1.oooCap + c } h.a left = r
    at m1 m2 m3 m4
  simp only [holds_append, holds_cons] at m2
  simp only [hinq, hrt] at m3 m4
  refine ⟨⟨by rw [m3, m4]; exact hw.chain, by rw [m4]; exact m1⟩,
    ⟨fun hx => ?_, fun hx => ?_, by rw [m4], fun _ hb => by rw [m3]; exact hb⟩,
    fun h => absurd h hne0⟩
  · rw [Held, m3, m2]
    rcases hx with hx | hx
    · exact .inl hx
    rcases hheld.mp hx with hx | hx | hx
    · exact .inr (.inl hx)
    · exact .inr (.inr (.inl (hMsub hx)))
    · exact .inr (.inr (.inr hx))
  rw [Held, m3, m2] at hx
  rcases hx with hx | hx | hx | hx
  · exact .inl (.inl hx)
  · exact .inl (.inr (hheld.mpr (.inl hx)))
  · obtain ⟨h1, _, h3⟩ := (hhas _ _).mp hx
    exact .inr ⟨by omega, h3⟩
  · exact .inl (.inr (hheld.mpr (.inr (.inr hx))))

end KeepRef

/-! ### Placing a frame -/

lemma newBytes_pos (hn : 0 < h.newBytes) : h.s0 < h.x := by
  rw [HeldRange.newBytes] at hn
  split at hn <;> omega

/-- `place` is `keepRef` on a held range with new bytes, or `copyPieces`. -/
lemma place_cases (q : Queues) (lim : Int) (f : DataFrame) :
    (∃ c, ∃ hc : c ∈ f.buf,
      (heldIn q.ooq (max f.off q.rTail) (f.off + f.p.length)).s0 <
        (heldIn q.ooq (max f.off q.rTail) (f.off + f.p.length)).x ∧
      q.place lim f = (q.keepRef lim f c hc
        (heldIn q.ooq (max f.off q.rTail) (f.off + f.p.length))
        (heldIn q.ooq (max f.off q.rTail) (f.off + f.p.length)).newBytes copyBudget).1) ∨
    ∃ left, q.place lim f = (q.copyPieces lim f.off f.p left).1 := by
  rw [place]
  split
  next c hb =>
    split
    next hcond => exact .inl ⟨c, by simp [hb], newBytes_pos hcond.1, rfl⟩
    · exact .inr ⟨_, rfl⟩
  · exact .inr ⟨_, rfl⟩

variable (lim : Int) {q : Queues} {a : Nat}

/-- **Placement.** A frame that agrees with what is held out of order keeps the queues well
formed, and they grow by the frame. -/
lemma place_spec (hw : q.Wf a) (hag : Agrees f q.ooq) :
    (q.place lim f).Wf a ∧ Grows f.off f.p q (q.place lim f) := by
  rcases place_cases q lim f with ⟨c, hc, hlt, h⟩ | ⟨left, h⟩
  · obtain ⟨L, M, R, hs⟩ := heldIn_spec (max f.off q.rTail) (f.off + f.p.length) hw.asc
    rw [h]
    obtain ⟨h1, h2, _⟩ := hs.keepRef_spec hw hlt hag lim _ _
    exact ⟨h1, h2⟩
  · rw [h]
    exact copyLoop_spec lim _ _ q left hw le_rfl

/-- A frame that starts at or before the contiguous end is taken whole. -/
lemma place_inOrder (hw : q.Wf a) (hag : Agrees f q.ooq)
    (ho : f.off ≤ q.rTail) :
    f.off + f.p.length ≤ (q.place lim f).rTail ∧ (q.place lim f).oooDropped = q.oooDropped := by
  rcases place_cases q lim f with ⟨c, hc, hlt, h⟩ | ⟨left, h⟩
  · obtain ⟨L, M, R, hs⟩ := heldIn_spec (max f.off q.rTail) (f.off + f.p.length) hw.asc
    rw [h]
    obtain ⟨h1, h2, h3⟩ := hs.keepRef_spec hw hlt hag lim _ _
    have hs0 : (heldIn q.ooq (max f.off q.rTail) (f.off + f.p.length)).s0 = q.rTail := by
      rcases hs.start_eq with he | ⟨sg, hsg, hlt'⟩
      · rw [he]
        exact Nat.max_eq_right ho
      -- no out-of-order segment starts before the contiguous end
      have hmem : sg ∈ q.ooq := by rw [hs.split]; simp [hsg]
      have := (hw.asc.bounds hmem).1
      omega
    obtain ⟨h4, h5⟩ := h3 hs0
    refine ⟨h1.le_tail h4 fun y hy1 hy2 => ?_, h5⟩
    obtain ⟨v, hv⟩ := hs.covers y hy1 hy2
    refine ⟨v, h2.keeps (.inr ?_)⟩
    rw [hs.split]
    simp only [holds_append]
    exact .inr (.inr hv)
  · rw [h]
    exact copyLoop_inOrder lim _ _ q left hw le_rfl ho le_rfl

/-! ### Releasing -/

/-- Shedding releases the highest out-of-order segments and nothing else. -/
lemma shedLoop_spec (n : Nat) (q : Queues) :
    (∃ S, q.ooq = (shedLoop lim n q).ooq ++ S) ∧ (shedLoop lim n q).inq = q.inq ∧
      (shedLoop lim n q).rTail = q.rTail ∧
      (q.ooq = [] → (shedLoop lim n q).oooDropped = q.oooDropped) := by
  induction n generalizing q with
  | zero => exact ⟨⟨[], by simp [shedLoop]⟩, rfl, rfl, fun _ => rfl⟩
  | succ n ih =>
    rw [shedLoop]
    split
    · cases hlast : q.ooq.getLast? with
      | none => exact ⟨⟨[], by simp⟩, rfl, rfl, fun _ => rfl⟩
      | some sg =>
        obtain ⟨⟨S, h1⟩, h2, h3, _⟩ := ih
          { q with
            ooq := q.ooq.dropLast
            oooCap := q.oooCap - sg.segCap
            oooDropped := q.oooDropped + sg.b.length }
        refine ⟨⟨S ++ [sg], ?_⟩, h2, h3, fun hnil => ?_⟩
        · have hne : q.ooq ≠ [] := by
            intro hnil
            simp [hnil] at hlast
          have hsg : q.ooq.getLast hne = sg := by
            rw [getLast?_eq_getLast_of_ne_nil hne] at hlast
            exact Option.some.inj hlast
          calc q.ooq = q.ooq.dropLast ++ [sg] := by rw [← hsg, dropLast_append_getLast]
            _ = _ := (congrArg (· ++ [sg]) h1).trans (append_assoc _ _ _)
        · simp [hnil] at hlast
    · exact ⟨⟨[], by simp⟩, rfl, rfl, fun _ => rfl⟩

lemma shed_wf (hw : q.Wf a) : (q.shed lim).Wf a := by
  obtain ⟨⟨S, h1⟩, h2, h3, _⟩ := shedLoop_spec lim q.ooq.length q
  refine ⟨by rw [shed, h2, h3]; exact hw.chain, ?_⟩
  have := hw.asc
  rw [h1] at this
  rw [shed, h3]
  exact (asc_append.mp this).1

lemma shed_held {x : Nat} {v : Byte} (h : (q.shed lim).Held x v) : q.Held x v := by
  obtain ⟨⟨S, h1⟩, h2, _⟩ := shedLoop_spec lim q.ooq.length q
  rcases h with h | h
  · rw [shed, h2] at h
    exact .inl h
  · right
    rw [h1, holds_append]
    exact .inl h

lemma shed_inq (q : Queues) (lim : Int) : (q.shed lim).inq = q.inq :=
  (shedLoop_spec lim q.ooq.length q).2.1

lemma shed_tail (q : Queues) (lim : Int) : (q.shed lim).rTail = q.rTail :=
  (shedLoop_spec lim q.ooq.length q).2.2.1

/-- If the front of the in-order queue is not wholly consumed, no segment is. -/
lemma Wf.front_behind {a rRead : Nat} (hw : q.Wf a)
    (hcond : ¬ (0 < q.inq.n ∧ (q.inq.get 0).endOff ≤ rRead)) :
    Behind rRead q.inq.toList := by
  intro sg hsg
  by_cases hn : 0 < q.inq.n
  · have hfront : rRead < q.inq.popFront.1.endOff := by
      rw [q.inq.popFront_fst hn]
      exact Nat.lt_of_not_le fun hc => hcond ⟨hn, hc⟩
    have hchain := hw.chain
    rw [q.inq.popFront_eq hn] at hsg hchain
    rcases mem_cons.mp hsg with rfl | hsg
    · exact hfront
    · obtain ⟨h1, h2, _⟩ := hchain.2.2.asc.1.bounds hsg
      have := Seg.lt_endOff h2
      omega
  · have : q.inq.toList = [] := q.inq.toList_eq_nil_iff.mpr (by omega)
    simp [this] at hsg

/-- `q'` is `q` with in-order bytes below `rRead` released at most. -/
structure Released (rRead : Nat) (q q' : Queues) : Prop where
  wf : ∃ a, a ≤ rRead ∧ q'.Wf a
  tail : q'.rTail = q.rTail
  ooq : q'.ooq = q.ooq
  dropped : q'.oooDropped = q.oooDropped
  only : ∀ {x v}, q'.Held x v → q.Held x v
  keeps : ∀ {x v}, rRead ≤ x → q.Held x v → q'.Held x v

/-- What releasing consumed segments leaves: every segment left ends behind `rRead`. -/
structure Consumed (rRead : Nat) (q q' : Queues) : Prop extends Released rRead q q' where
  behind : Behind rRead q'.inq.toList

lemma consumeLoop_spec {a rRead : Nat} (n : Nat) (q : Queues) (hw : q.Wf a) (ha : a ≤ rRead)
    (hn : q.inq.n ≤ n) : Consumed rRead q (consumeLoop rRead n q) := by
  induction n generalizing a q with
  | zero =>
    exact ⟨⟨⟨a, ha, hw⟩, rfl, rfl, rfl, id, fun _ => id⟩, hw.front_behind fun h => by omega⟩
  | succ n ih =>
    rw [consumeLoop]
    by_cases hcond : 0 < q.inq.n ∧ (q.inq.get 0).endOff ≤ rRead
    · rw [if_pos hcond]
      have heq := q.inq.popFront_eq hcond.1
      have hle : q.inq.popFront.1.endOff ≤ rRead := by
        rw [q.inq.popFront_fst hcond.1]
        exact hcond.2
      obtain ⟨_, _, h3⟩ := heq ▸ hw.chain
      have hn' : q.inq.popFront.2.n ≤ n := by
        rw [q.inq.popFront_n]
        omega
      have i := ih
        { q with inq := q.inq.popFront.2, oooCap := q.oooCap - q.inq.popFront.1.segCap }
        ⟨h3, hw.asc⟩ hle hn'
      refine ⟨{ i with only := fun hx => ?_, keeps := fun hge hx => i.keeps hge ?_ },
        i.behind⟩
      · refine (i.only hx).imp_left fun hx => ?_
        rw [heq, holds_cons]
        exact .inr hx
      refine hx.imp_left fun hx => ?_
      rw [heq, holds_cons] at hx
      rcases hx with hx | hx
      · have := hx.bounds
        omega
      · exact hx
    · rw [if_neg hcond]
      exact ⟨⟨⟨a, ha, hw⟩, rfl, rfl, rfl, id, fun _ => id⟩, hw.front_behind hcond⟩

lemma releaseConsumed_spec (rRead : Nat) (hw : q.Wf a) (ha : a ≤ rRead) :
    Consumed rRead q (q.releaseConsumed rRead) :=
  consumeLoop_spec q.inq.n q hw ha le_rfl

lemma releaseInq_spec (n : Nat) (q : Queues) (hn : q.inq.n ≤ n) :
    (releaseInq n q).inq.toList = [] ∧ (releaseInq n q).ooq = q.ooq := by
  induction n generalizing q with
  | zero => exact ⟨q.inq.toList_eq_nil_iff.mpr (by omega), rfl⟩
  | succ n ih =>
    rw [releaseInq]
    split
    · have hn' : q.inq.popFront.2.n ≤ n := by
        rw [q.inq.popFront_n]
        omega
      exact ih { q with inq := q.inq.popFront.2, oooCap := q.oooCap - q.inq.popFront.1.segCap } hn'
    · exact ⟨q.inq.toList_eq_nil_iff.mpr (by omega), rfl⟩

@[simp] lemma releaseOOO_ooq (q : Queues) : q.releaseOOO.ooq = [] := by
  simp only [releaseOOO, releaseOOORange, cut]
  split
  · exact length_eq_zero_iff.mp (by omega)
  · simp

/-- After the end nothing is held and nothing is readable. -/
lemma releaseRecv_spec (q : Queues) (rRead : Nat) :
    (q.releaseRecv rRead).inq.toList = [] ∧ (q.releaseRecv rRead).ooq = [] ∧
      (q.releaseRecv rRead).rTail = rRead := by
  obtain ⟨h1, _⟩ := releaseInq_spec q.inq.n q le_rfl
  exact ⟨h1, releaseOOO_ooq _, rfl⟩

end Queues

end Rendr
