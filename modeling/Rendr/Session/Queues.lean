import Rendr.Session.Recv

/-!
# Copying received bytes

What the copying functions do to the receive queues, in terms of the bytes held. A queue state
is well formed from `a` (`Queues.Wf q a`) when `inq` covers exactly `[a, rTail)` and `ooq` lies
strictly beyond `rTail`. Copying a frame never loses a held byte and holds nothing but what was
held or the frame carries (`Queues.Grows`).

* `promote_spec`, `mergeFollowers_spec`: moving and merging segments keeps the bytes held;
* `copyLoop_spec`: copying keeps the queues well formed and grows them by the frame;
* `copyLoop_inOrder`: from a position at or before `rTail` everything is taken.
-/

namespace Rendr

open List Seg

namespace Queues

/-- The queues hold byte `v` at offset `x`. -/
def Held (q : Queues) (x : Nat) (v : Byte) : Prop := Holds q.inq.toList x v ∨ Holds q.ooq x v

instance (q : Queues) (x : Nat) (v : Byte) : Decidable (q.Held x v) :=
  inferInstanceAs (Decidable (_ ∨ _))

/-- Well-formed queues whose first unreleased offset is `a`. -/
structure Wf (q : Queues) (a : Nat) : Prop where
  /-- the in-order segments cover exactly `[a, rTail)` -/
  chain : Chain a q.inq.toList q.rTail
  /-- the out-of-order segments start strictly beyond `rTail` -/
  asc : Asc (q.rTail + 1) q.ooq

/-- Every segment of `l` ends behind `r`. -/
def Behind (r : Nat) (l : List Seg) : Prop := ∀ sg ∈ l, r < sg.endOff

/-- `q'` holds what `q` holds and, beyond that, only bytes of the payload `p` at `off`. -/
structure Grows (off : Nat) (p : List Byte) (q q' : Queues) : Prop where
  keeps : ∀ {x v}, q.Held x v → q'.Held x v
  only : ∀ {x v}, q'.Held x v → q.Held x v ∨ (off ≤ x ∧ p[x - off]? = some v)
  tail_le : q.rTail ≤ q'.rTail
  /-- no in-order segment gets to end at or before a read position -/
  behind : ∀ {r}, r ≤ q.rTail → Behind r q.inq.toList → Behind r q'.inq.toList

lemma Grows.refl (off : Nat) (p : List Byte) (q : Queues) : Grows off p q q :=
  ⟨id, Or.inl, le_rfl, fun _ => id⟩

variable {p : List Byte}

lemma Grows.trans {off : Nat} {q r s : Queues} (h : Grows off p q r) (h' : Grows off p r s) :
    Grows off p q s := by
  refine ⟨fun hx => h'.keeps (h.keeps hx), fun hx => ?_, le_trans h.tail_le h'.tail_le,
    fun hr hb => h'.behind (le_trans hr h.tail_le) (h.behind hr hb)⟩
  rcases h'.only hx with hx | hx
  · exact h.only hx
  · exact .inr hx

variable {q : Queues} {a : Nat}

/-- Nothing is held at `rTail`. -/
lemma Wf.not_held_tail (h : q.Wf a) (v : Byte) : ¬ q.Held q.rTail v := by
  rintro (hx | hx)
  · have := h.chain.holds_bounds hx
    omega
  · have := h.asc.holds_bounds hx
    omega

/-- If every offset of `[rTail, e)` of an earlier state is held, the contiguous end is past
`e`. -/
lemma Wf.le_tail {a c e : Nat} (h : q.Wf a) (hc : c ≤ q.rTail)
    (hall : ∀ x, c ≤ x → x < e → ∃ v, q.Held x v) : e ≤ q.rTail := by
  by_contra hlt
  obtain ⟨v, hv⟩ := hall q.rTail hc (by omega)
  exact h.not_held_tail v hv

/-! ### The in-order ring -/

variable {r : SegRing} {a e : Nat}

/-- The last segment of a chain in a ring ends where the chain ends. -/
lemma back_of_chain (h : Chain a r.toList e) (hn : 0 < r.n) :
    ∃ c, Chain a r.toList.dropLast c ∧ r.back.off = c ∧ r.back.b ≠ [] ∧ r.back.endOff = e := by
  rw [r.toList_eq_dropLast_back hn] at h
  obtain ⟨c, h1, h2, h3, h4⟩ := chain_append.mp h
  exact ⟨c, h1, h2, h3, h4⟩

/-- Growing the last segment of a chain extends the chain by the bytes copied. -/
lemma chain_setBack (h : Chain a r.toList e) (hn : 0 < r.n) (bs : List Byte) :
    Chain a (r.setBack (r.back.growSeg bs).2).toList (e + (r.back.growSeg bs).1) := by
  obtain ⟨c, h1, h2, h3, h4⟩ := back_of_chain h hn
  rw [r.toList_setBack _ hn]
  refine chain_append.mpr ⟨c, h1, h2, growSeg_ne_nil bs h3, ?_⟩
  rw [Chain, growSeg_endOff, h4]

lemma holds_setBack (h : Chain a r.toList e) (hn : 0 < r.n) (bs : List Byte) (x : Nat)
    (v : Byte) :
    Holds (r.setBack (r.back.growSeg bs).2).toList x v ↔
      Holds r.toList x v ∨ (e ≤ x ∧ x < e + (r.back.growSeg bs).1 ∧ bs[x - e]? = some v) := by
  obtain ⟨c, h1, h2, h3, h4⟩ := back_of_chain h hn
  rw [r.toList_setBack _ hn]
  conv_rhs => rw [r.toList_eq_dropLast_back hn]
  simp only [holds_append, holds_cons, holds_nil, or_false, growSeg_has, h4, or_assoc]

lemma chain_push {sg : Seg} (h : Chain a r.toList sg.off) (hb : sg.b ≠ []) :
    Chain a (r.push sg).toList sg.endOff := by
  rw [Ring.toList_push]
  exact chain_append.mpr ⟨sg.off, h, rfl, hb, rfl⟩

/-- Growing the last segment or appending one keeps every segment behind a read position. -/
lemma behind_setBack {x : Nat} (hb : Behind x r.toList) (hn : 0 < r.n) (bs : List Byte) :
    Behind x (r.setBack (r.back.growSeg bs).2).toList := by
  rw [r.toList_eq_dropLast_back hn] at hb
  rw [r.toList_setBack _ hn]
  intro sg hs
  rcases mem_append.mp hs with hs | hs
  · exact hb sg (mem_append_left _ hs)
  · rw [mem_singleton.mp hs, growSeg_endOff]
    have := hb r.back (by simp)
    omega

lemma behind_push {x : Nat} {sg : Seg} (hb : Behind x r.toList) (hsg : x < sg.endOff) :
    Behind x (r.push sg).toList := by
  rw [Ring.toList_push]
  intro s hs
  rcases mem_append.mp hs with hs | hs
  · exact hb s hs
  · rw [mem_singleton.mp hs]
    exact hsg

lemma push_n_pos (r : SegRing) (sg : Seg) : 0 < (r.push sg).n := by
  have := r.toList_push sg
  rw [← Ring.length_toList, this]
  simp

/-! ### Promotion -/

/-- What promotion over `l` does to queues whose in-order part ends where `l` may begin. -/
lemma promoteLoop_spec (l : List Seg) (q : Queues) (left : Int)
    (hc : Chain a q.inq.toList q.rTail) (hn : 0 < q.inq.n) (hl : Asc q.rTail l) :
    (promoteLoop l q left).1.Wf a ∧ q.rTail ≤ (promoteLoop l q left).1.rTail ∧
      (∀ x v, (promoteLoop l q left).1.Held x v ↔ Holds q.inq.toList x v ∨ Holds l x v) ∧
      ∀ {r}, r ≤ q.rTail → Behind r q.inq.toList →
        Behind r (promoteLoop l q left).1.inq.toList := by
  induction l generalizing q left with
  | nil =>
    exact ⟨⟨hc, trivial⟩, le_rfl, fun x v => by simp [promoteLoop, Held], fun _ => id⟩
  | cons sg t ih =>
    obtain ⟨h1, h2, h3⟩ := hl
    rw [promoteLoop]
    by_cases hoff : sg.off = q.rTail
    · rw [if_pos hoff]
      have hend : sg.endOff = q.rTail + sg.b.length := by rw [endOff, hoff]
      have hhas : ∀ x v, sg.Has x v ↔ q.rTail ≤ x ∧ x < q.rTail + sg.b.length ∧
          sg.b[x - q.rTail]? = some v := by
        intro x v
        refine ⟨fun hv => ?_, fun hx => ⟨hoff ▸ hx.1, by rw [hoff]; exact hx.2.2⟩⟩
        have := hv.bounds
        exact ⟨by omega, by omega, by rw [← hoff]; exact hv.2⟩
      dsimp only
      split
      · -- merged into the in-order tail
        rename_i hfit
        have hm : (q.inq.back.growSeg sg.b).1 = sg.b.length := growSeg_fst_of_le hfit.1
        have hchain := chain_setBack hc hn sg.b
        rw [hm] at hchain
        obtain ⟨i1, i2, i3, i4⟩ := ih
          { q with
            inq := q.inq.setBack (q.inq.back.growSeg sg.b).2
            oooCap := q.oooCap - sg.segCap
            rTail := q.rTail + sg.b.length
            rxBytes := q.rxBytes + sg.b.length }
          (left - sg.b.length) hchain hn (hend ▸ h3)
        refine ⟨i1, le_trans (Nat.le_add_right _ _) i2, fun x v => (i3 x v).trans ?_,
          fun hr hb => i4 (le_trans hr (Nat.le_add_right _ _)) (behind_setBack hb hn _)⟩
        rw [holds_setBack hc hn, hm, holds_cons, hhas, or_assoc]
      -- appended as it is
      have hchain : Chain a (q.inq.push sg).toList (q.rTail + sg.b.length) := by
        have := chain_push (by rw [hoff]; exact hc) h2
        rwa [hend] at this
      obtain ⟨i1, i2, i3, i4⟩ := ih
        { q with
          inq := q.inq.push sg
          rTail := q.rTail + sg.b.length
          rxBytes := q.rxBytes + sg.b.length }
        left hchain (push_n_pos _ _) (hend ▸ h3)
      have := lt_endOff h2
      refine ⟨i1, le_trans (Nat.le_add_right _ _) i2, fun x v => (i3 x v).trans ?_,
        fun hr hb => i4 (le_trans hr (Nat.le_add_right _ _)) (behind_push hb (by omega))⟩
      simp only [Ring.toList_push, holds_append, holds_cons, holds_nil, or_false, or_assoc]
    -- a gap remains before the first segment
    rw [if_neg hoff]
    have hgt : q.rTail + 1 ≤ sg.off := by omega
    exact ⟨⟨hc, hgt, h2, h3⟩, le_rfl, fun x v => Iff.rfl, fun _ => id⟩

/-- `promote` restores well-formedness after an in-order placement and holds the same bytes. -/
lemma promote_spec (left : Int) (hc : Chain a q.inq.toList q.rTail) (hn : 0 < q.inq.n)
    (ho : Asc q.rTail q.ooq) :
    (q.promote left).1.Wf a ∧ q.rTail ≤ (q.promote left).1.rTail ∧
      (∀ x v, (q.promote left).1.Held x v ↔ q.Held x v) ∧
      ∀ {r}, r ≤ q.rTail → Behind r q.inq.toList → Behind r (q.promote left).1.inq.toList :=
  promoteLoop_spec q.ooq q left hc hn ho

/-! ### Merging -/

variable {lo : Nat}

lemma mergeLoop_spec (t : Seg) (r : List Seg) (left : Int) (h : Asc lo (t :: r)) :
    Asc lo ((mergeLoop t r left).1 :: (mergeLoop t r left).2.1) ∧
      ∀ x v, Holds ((mergeLoop t r left).1 :: (mergeLoop t r left).2.1) x v ↔
        Holds (t :: r) x v := by
  induction r generalizing t left with
  | nil => exact ⟨h, fun x v => Iff.rfl⟩
  | cons sg r ih =>
    rw [mergeLoop]
    split
    · exact ⟨h, fun x v => Iff.rfl⟩
    rename_i hcond
    simp only [not_or, ne_eq, not_not, not_lt] at hcond
    obtain ⟨h1, h2, h3, h4, h5⟩ := h
    have hm : (t.growSeg sg.b).1 = sg.b.length := growSeg_fst_of_le hcond.2.1
    have hend : (t.growSeg sg.b).2.endOff = sg.endOff := by
      rw [growSeg_endOff, hm, ← hcond.1, endOff]
    have hasc : Asc lo ((t.growSeg sg.b).2 :: r) :=
      ⟨h1, growSeg_ne_nil _ h2, by rw [hend]; exact h5⟩
    obtain ⟨i1, i2⟩ := ih (t.growSeg sg.b).2 (left - sg.b.length) hasc
    refine ⟨i1, fun x v => (i2 x v).trans ?_⟩
    simp only [holds_cons, growSeg_has, hm, or_assoc]
    refine or_congr_right (or_congr_left ?_)
    constructor
    · rintro ⟨hx1, hx2, hv⟩
      exact ⟨by omega, by rw [hcond.1]; exact hv⟩
    intro hv
    have := hv.bounds
    rw [endOff, hcond.1] at this
    exact ⟨this.1, this.2, by rw [← hcond.1]; exact hv.2⟩

/-- Merging rearranges `ooq` from segment `k` on and holds the same bytes. -/
lemma mergeFollowers_spec (k : Nat) (left : Int) (h : Asc lo q.ooq) :
    Asc lo (q.mergeFollowers k left).1.ooq ∧
      (∀ x v, Holds (q.mergeFollowers k left).1.ooq x v ↔ Holds q.ooq x v) ∧
      (q.mergeFollowers k left).1.inq = q.inq ∧ (q.mergeFollowers k left).1.rTail = q.rTail := by
  rw [mergeFollowers]
  split
  · exact ⟨h, fun x v => Iff.rfl, rfl, rfl⟩
  rename_i t ht
  have hk : k < q.ooq.length := (List.getElem?_eq_some_iff.mp ht).1
  have hsplit : q.ooq = q.ooq.take k ++ t :: q.ooq.drop (k + 1) := by
    have hget : q.ooq[k] = t := (List.getElem?_eq_some_iff.mp ht).2
    rw [← hget, getElem_cons_drop, take_append_drop]
  have hasc := h
  rw [hsplit] at hasc
  obtain ⟨h1, h2⟩ := asc_append.mp hasc
  obtain ⟨i1, i2⟩ := mergeLoop_spec t (q.ooq.drop (k + 1)) left h2
  refine ⟨asc_append.mpr ⟨h1, i1⟩, fun x v => ?_, rfl, rfl⟩
  conv_rhs => rw [hsplit]
  rw [holds_append, holds_append, i2]

/-! ### Copying in order -/

/-- The bytes of a payload at `pos`, cut at its `m`-th byte. -/
lemma payload_split (bs : List Byte) (pos m : Nat) {x : Nat} {v : Byte} :
    (pos ≤ x ∧ bs[x - pos]? = some v) ↔
      (pos ≤ x ∧ x < pos + m ∧ bs[x - pos]? = some v) ∨
        (pos + m ≤ x ∧ (bs.drop m)[x - (pos + m)]? = some v) := by
  have hdrop : pos + m ≤ x → (bs.drop m)[x - (pos + m)]? = bs[x - pos]? := by
    intro hx
    rw [getElem?_drop]
    congr 1
    omega
  constructor
  · rintro ⟨h1, h2⟩
    by_cases hx : x < pos + m
    · exact .inl ⟨h1, hx, h2⟩
    · exact .inr ⟨by omega, by rw [hdrop (by omega)]; exact h2⟩
  · rintro (⟨h1, _, h2⟩ | ⟨h1, h2⟩)
    · exact ⟨h1, h2⟩
    · exact ⟨by omega, by rw [← hdrop h1]; exact h2⟩

variable (pos : Nat)

lemma newRun_fst_le (bs : List Byte) : (newRun pos bs).1 ≤ bs.length :=
  min_le_right _ _

variable {bs : List Byte}

lemma newRun_fst_pos (h : bs ≠ []) : 0 < (newRun pos bs).1 := by
  have := length_pos_iff.mpr h
  simp only [newRun, runSize]
  omega

lemma newRun_ne_nil (h : bs ≠ []) : (newRun pos bs).2.b ≠ [] := by
  simp [newRun, runSize, h]

lemma newRun_endOff (bs : List Byte) : (newRun pos bs).2.endOff = pos + (newRun pos bs).1 := by
  simp [newRun, endOff, length_take]

lemma newRun_has (bs : List Byte) (x : Nat) (v : Byte) :
    (newRun pos bs).2.Has x v ↔
      pos ≤ x ∧ x < pos + (newRun pos bs).1 ∧ bs[x - pos]? = some v := by
  constructor
  · intro hv
    have hb := hv.bounds
    rw [newRun_endOff] at hb
    refine ⟨hb.1, hb.2, ?_⟩
    have := hv.2
    simp only [newRun, getElem?_take] at this
    split at this
    · exact this
    · simp at this
  rintro ⟨h1, h2, h3⟩
  refine ⟨h1, ?_⟩
  simp only [newRun] at h2
  simp only [newRun, getElem?_take]
  rw [if_pos (by omega)]
  exact h3

/-- `bs`, copied in at `pos`, follows the queue without a hole; nothing else is touched. -/
abbrev Appended (a pos : Nat) (bs : List Byte) (q r : Queues) : Prop :=
  Chain a r.inq.toList (pos + bs.length) ∧
    (∀ x v, Holds r.inq.toList x v ↔ Holds q.inq.toList x v ∨ (pos ≤ x ∧ bs[x - pos]? = some v)) ∧
    (bs ≠ [] → 0 < r.inq.n) ∧ r.ooq = q.ooq ∧ r.rTail = q.rTail ∧ r.oooDropped = q.oooDropped ∧
    ∀ {k}, k ≤ pos → Behind k q.inq.toList → Behind k r.inq.toList

/-- `appendLoop` extends the in-order chain by all of `bs` and touches nothing else. -/
lemma appendLoop_spec (fuel pos : Nat) (bs : List Byte) (q : Queues)
    (hc : Chain a q.inq.toList pos) (hf : bs.length ≤ fuel) :
    Appended a pos bs q (appendLoop fuel pos bs q) := by
  induction fuel generalizing pos bs q with
  | zero =>
    have : bs = [] := length_eq_zero_iff.mp (by omega)
    subst this
    exact ⟨hc, fun x v => by simp [appendLoop], fun h => absurd rfl h, rfl, rfl, rfl, fun _ => id⟩
  | succ fuel ih =>
    rw [appendLoop]
    by_cases hbs : bs = []
    · subst hbs
      exact ⟨hc, fun x v => by simp, fun h => absurd rfl h, rfl, rfl, rfl, fun _ => id⟩
    rw [if_neg (by simpa using hbs)]
    -- one round copies `m` bytes into a tail that ends at `pos + m`; the rest is the
    -- induction hypothesis
    have step : ∀ (m : Nat) (q1 : Queues), 0 < m → m ≤ bs.length →
        Chain a q1.inq.toList (pos + m) → 0 < q1.inq.n →
        (∀ x v, Holds q1.inq.toList x v ↔
          Holds q.inq.toList x v ∨ (pos ≤ x ∧ x < pos + m ∧ bs[x - pos]? = some v)) →
        q1.ooq = q.ooq → q1.rTail = q.rTail → q1.oooDropped = q.oooDropped →
        (∀ {r}, r ≤ pos → Behind r q.inq.toList → Behind r q1.inq.toList) →
        Appended a pos bs q (appendLoop fuel (pos + m) (bs.drop m) q1) := by
      intro m q1 hm0 hm hch hn hh ho ht hd hbeh
      obtain ⟨i1, i2, i3, i4, i5, i6, i7⟩ :=
        ih (pos + m) (bs.drop m) q1 hch (by rw [length_drop]; omega)
      rw [length_drop, show pos + m + (bs.length - m) = pos + bs.length by omega] at i1
      refine ⟨i1, fun x v => ?_, fun _ => ?_, i4.trans ho, i5.trans ht, i6.trans hd,
        fun hr hb => i7 (le_trans hr (Nat.le_add_right _ _)) (hbeh hr hb)⟩
      · rw [i2, hh, payload_split bs pos m, or_assoc]
      by_cases hr : bs.drop m = []
      · rw [hr]
        cases fuel <;> exact hn
      · exact i3 hr
    split
    · -- into the room of the tail
      rename_i hroom
      exact step (q.inq.back.growSeg bs).1
        { q with inq := q.inq.setBack (q.inq.back.growSeg bs).2 }
        (growSeg_fst_pos hroom.2 hbs) (growSeg_fst_le _ _) (chain_setBack hc hroom.1 bs)
        hroom.1 (holds_setBack hc hroom.1 bs) rfl rfl rfl
        fun _ hb => behind_setBack hb hroom.1 bs
    -- into a new run
    have hch : Chain a (q.inq.push (newRun pos bs).2).toList (pos + (newRun pos bs).1) := by
      rw [← newRun_endOff]
      exact chain_push hc (newRun_ne_nil pos hbs)
    exact step (newRun pos bs).1
      { q with inq := q.inq.push (newRun pos bs).2, oooCap := q.oooCap + runCap }
      (newRun_fst_pos pos hbs) (newRun_fst_le _ _) hch (push_n_pos _ _)
      (fun x v => by simp [newRun_has]) rfl rfl rfl fun hr hb => behind_push hb <| by
        rw [newRun_endOff]
        have := newRun_fst_pos pos hbs
        omega

/-- Copying a piece at `rTail`, with nothing held out of order below its end, takes all of it. -/
lemma appendCopy_spec {piece : List Byte} (left : Int) (hw : q.Wf a) (hne : piece ≠ [])
    (ho : Asc (q.rTail + piece.length) q.ooq) :
    (q.appendCopy q.rTail piece left).1.Wf a ∧
      q.rTail + piece.length ≤ (q.appendCopy q.rTail piece left).1.rTail ∧
      (∀ x v, (q.appendCopy q.rTail piece left).1.Held x v ↔
        q.Held x v ∨ (q.rTail ≤ x ∧ piece[x - q.rTail]? = some v)) ∧
      ∀ {r}, r ≤ q.rTail → Behind r q.inq.toList →
        Behind r (q.appendCopy q.rTail piece left).1.inq.toList := by
  obtain ⟨i1, i2, i3, i4, i5, _, i7⟩ :=
    appendLoop_spec piece.length q.rTail piece q hw.chain le_rfl
  rw [appendCopy]
  generalize appendLoop piece.length q.rTail piece q = q1 at i1 i2 i3 i4 i5 i7
  obtain ⟨p1, p2, p3, p4⟩ := promote_spec
    (q := { q1 with rTail := q1.rTail + piece.length, rxBytes := q1.rxBytes + piece.length }) left
    (by rw [i5]; exact i1) (i3 hne) (by rw [i4, i5]; exact ho)
  refine ⟨p1, by rw [← i5]; exact p2, fun x v => (p3 x v).trans ?_, fun hr hb => p4 ?_ (i7 hr hb)⟩
  · simp only [Held, i2, i4, or_right_comm]
  · exact le_trans (i5 ▸ hr) (Nat.le_add_right _ _)

/-! ### Copying out of order -/

/-- What `growBefore` grows: the last segment before the insertion point, which ends at `pos`. -/
lemma growBefore_some {L R : List Seg} {pos m : Nat} {t' : Seg}
    (h : growBefore (L ++ R) L.length pos bs = some (m, t')) :
    ∃ L0 t, L = L0 ++ [t] ∧ t.endOff = pos ∧ 0 < t.segRoom ∧ t.growSeg bs = (m, t') := by
  rcases eq_nil_or_concat' L with rfl | ⟨L0, t, rfl⟩
  · simp [growBefore] at h
  refine ⟨L0, t, rfl, ?_⟩
  have hget : (L0 ++ [t] ++ R)[(L0 ++ [t]).length - 1]? = some t := by simp
  rw [growBefore, if_pos (by simp), hget] at h
  dsimp only at h
  split at h
  next hc => exact ⟨hc.1, hc.2, Option.some.inj h⟩
  · simp at h

/-- From `q` to `q'` the out-of-order segments `L` before `R` grow, from `pos` on, by a head of
`bs`; nothing else of the queues changes. -/
abbrev Inserted (lo pos : Nat) (bs : List Byte) (L R : List Seg) (q q' : Queues) : Prop :=
  ∃ L', q'.ooq = L' ++ R ∧ Asc lo L' ∧ lastEnd lo L' ≤ pos + bs.length ∧
    (∀ {x v}, Holds L x v → Holds L' x v) ∧
    (∀ {x v}, Holds L' x v → Holds L x v ∨ (pos ≤ x ∧ bs[x - pos]? = some v)) ∧
    q'.inq = q.inq ∧ q'.rTail = q.rTail

/-- `insertLoop` extends the segments before the insertion point. -/
lemma insertLoop_spec (lim : Int) {R : List Seg} (fuel : Nat) (L : List Seg)
    (pos : Nat) (bs : List Byte) (q : Queues) (hq : q.ooq = L ++ R) (hL : Asc lo L)
    (hlast : lastEnd lo L ≤ pos) (hf : bs.length ≤ fuel) :
    Inserted lo pos bs L R q (insertLoop lim fuel L.length pos bs q).1 := by
  induction fuel generalizing L pos bs q with
  | zero => exact ⟨L, hq, hL, by omega, id, .inl, rfl, rfl⟩
  | succ fuel ih =>
    rw [insertLoop]
    by_cases hbs : bs = []
    · rw [if_pos (by simpa using hbs)]
      exact ⟨L, hq, hL, by omega, id, .inl, rfl, rfl⟩
    rw [if_neg (by simpa using hbs)]
    -- one round turns `L` into `L1`, which ends `m` bytes further at most
    have step : ∀ (m : Nat) (L1 : List Seg) (q1 : Queues), 0 < m → m ≤ bs.length →
        q1.ooq = L1 ++ R → Asc lo L1 → lastEnd lo L1 ≤ pos + m →
        (∀ {x v}, Holds L x v → Holds L1 x v) →
        (∀ {x v}, Holds L1 x v → Holds L x v ∨ (pos ≤ x ∧ x < pos + m ∧ bs[x - pos]? = some v)) →
        q1.inq = q.inq → q1.rTail = q.rTail →
        Inserted lo pos bs L R q (insertLoop lim fuel L1.length (pos + m) (bs.drop m) q1).1 := by
      intro m L1 q1 hm0 hm hq1 hL1 hlast1 hkeep honly hi ht
      obtain ⟨L', i1, i2, i3, i4, i5, i6, i7⟩ :=
        ih L1 (pos + m) (bs.drop m) q1 hq1 hL1 hlast1 (by rw [length_drop]; omega)
      rw [length_drop] at i3
      refine ⟨L', i1, i2, by omega, fun h => i4 (hkeep h), fun h => ?_, i6.trans hi, i7.trans ht⟩
      rw [payload_split bs pos m]
      rcases i5 h with h | h
      · exact (honly h).imp_right .inl
      · exact .inr (.inr h)
    cases hg : growBefore q.ooq L.length pos bs with
    | some mt =>
      -- into the room of the segment that ends at `pos`
      obtain ⟨m, t'⟩ := mt
      rw [hq] at hg
      obtain ⟨L0, t, rfl, htend, hroom, hgrow⟩ := growBefore_some hg
      obtain ⟨hL0, h1, h2, _⟩ := asc_append.mp hL
      have hm : (t.growSeg bs).1 = m := by rw [hgrow]
      have ht' : (t.growSeg bs).2 = t' := by rw [hgrow]
      have hset : (L0 ++ [t]).length = (L0 ++ [t']).length := by simp
      have hooq : q.ooq.set ((L0 ++ [t]).length - 1) t' = L0 ++ [t'] ++ R := by
        rw [hq]
        simp
      have := step m (L0 ++ [t']) { q with ooq := q.ooq.set ((L0 ++ [t]).length - 1) t' }
        (by rw [← hm]; exact growSeg_fst_pos hroom hbs)
        (by rw [← hm]; exact growSeg_fst_le t bs) hooq
        (asc_append.mpr ⟨hL0, by rw [← ht']; exact h1,
          by rw [← ht']; exact growSeg_ne_nil bs h2, trivial⟩)
        (by simp only [lastEnd_append, lastEnd, ← ht', growSeg_endOff, htend, hm]
            exact le_rfl)
        (by
          intro x v h
          simp only [holds_append, holds_cons, holds_nil, or_false, ← ht',
            growSeg_has] at h ⊢
          rcases h with h | h
          · exact .inl h
          · exact .inr (.inl h))
        (by
          intro x v h
          simp only [holds_append, holds_cons, holds_nil, or_false, ← ht', growSeg_has,
            htend, hm] at h ⊢
          rcases h with h | h | h
          · exact .inl (.inl h)
          · exact .inl (.inr h)
          · exact .inr h)
        rfl rfl
      rw [← hset] at this
      exact this
    | none =>
      dsimp only
      split
      · -- the charge is at its limit: the rest is dropped
        exact ⟨L, hq, hL, by omega, id, .inl, rfl, rfl⟩
      -- into a new run
      have hooq : insertAt L.length (newRun pos bs).2 q.ooq = L ++ [(newRun pos bs).2] ++ R := by
        simp [insertAt, hq]
      have := step (newRun pos bs).1 (L ++ [(newRun pos bs).2])
        { q with
          ooq := insertAt L.length (newRun pos bs).2 q.ooq
          oooCap := q.oooCap + runCap }
        (newRun_fst_pos pos hbs) (newRun_fst_le pos bs) hooq
        (asc_append.mpr ⟨hL, hlast, newRun_ne_nil pos hbs, trivial⟩)
        (by simp only [lastEnd_append, lastEnd, newRun_endOff]; exact le_rfl)
        (by
          intro x v h
          rw [holds_append]
          exact .inl h)
        (by
          intro x v h
          simpa only [holds_append, holds_cons, holds_nil, or_false, newRun_has] using h)
        rfl rfl
      rw [length_append, length_singleton] at this
      exact this

/-- Copying a piece between the segments before and behind index `i` keeps `ooq` ascending. -/
lemma insertCopy_spec {a i pos : Nat} {piece : List Byte} (lim left : Int) (hw : q.Wf a)
    (hi : i ≤ q.ooq.length) (hlast : lastEnd (q.rTail + 1) (q.ooq.take i) ≤ pos)
    (hR : Asc (pos + piece.length) (q.ooq.drop i)) :
    (q.insertCopy lim i pos piece left).1.Wf a ∧
      Grows pos piece q (q.insertCopy lim i pos piece left).1 := by
  have hsplit := (take_append_drop i q.ooq).symm
  have hL : Asc (q.rTail + 1) (q.ooq.take i) := by
    have := hw.asc
    rw [hsplit] at this
    exact (asc_append.mp this).1
  obtain ⟨L', i1, i2, i3, i4, i5, i6, i7⟩ :=
    insertLoop_spec lim piece.length (q.ooq.take i) pos piece q hsplit hL hlast le_rfl
  rw [length_take, Nat.min_eq_left hi] at i1 i6 i7
  rw [insertCopy]
  generalize hr : insertLoop lim piece.length i pos piece q = r at i1 i6 i7
  obtain ⟨q1, o⟩ := r
  have hasc : Asc (q.rTail + 1) q1.ooq := by
    rw [i1]
    exact asc_append.mpr ⟨i2, hR.mono i3⟩
  have hkeep : ∀ {x v}, Holds q.ooq x v → Holds q1.ooq x v := by
    intro x v h
    rw [hsplit, holds_append] at h
    rw [i1, holds_append]
    exact h.imp_left i4
  have honly : ∀ {x v}, Holds q1.ooq x v →
      Holds q.ooq x v ∨ (pos ≤ x ∧ piece[x - pos]? = some v) := by
    intro x v h
    rw [i1, holds_append] at h
    rw [hsplit, holds_append]
    rcases h with h | h
    · exact (i5 h).imp_left .inl
    · exact .inl (.inr h)
  -- the result differs from `q1` by a merge at most
  have done : ∀ q2 : Queues, q2.inq = q.inq → q2.rTail = q.rTail → Asc (q.rTail + 1) q2.ooq →
      (∀ x v, Holds q2.ooq x v ↔ Holds q1.ooq x v) → q2.Wf a ∧ Grows pos piece q q2 := by
    intro q2 h1 h2 h3 h4
    refine ⟨⟨by rw [h1, h2]; exact hw.chain, by rw [h2]; exact h3⟩, ?_, ?_, by rw [h2],
      fun _ hb => by rw [h1]; exact hb⟩
    · intro x v h
      simp only [Held, h1, h4] at h ⊢
      exact h.imp_right hkeep
    intro x v h
    simp only [Held, h1, h4] at h ⊢
    rcases h with h | h
    · exact .inl (.inl h)
    · exact (honly h).imp_left .inr
  cases o with
  | none => exact done q1 i6 i7 hasc fun _ _ => Iff.rfl
  | some i' =>
    obtain ⟨m1, m2, m3, m4⟩ := mergeFollowers_spec (i' - 1) left hasc
    exact done _ (m3.trans i6) (m4.trans i7) m1 m2

/-! ### Copying the pieces of a frame -/

lemma length_slice {α : Type} {l : List α} {i j : Nat} (h : j ≤ l.length) :
    (slice l i j).length = j - i := by
  simp only [slice, length_take, length_drop]
  omega

/-- A byte of a piece of a payload is that byte of the payload. -/
lemma slice_payload {off pos stop x : Nat} {v : Byte} (ho : off ≤ pos) (hx : pos ≤ x)
    (h : (slice p (pos - off) (stop - off))[x - pos]? = some v) : p[x - off]? = some v := by
  rw [getElem?_slice] at h
  split at h
  · rw [← h]
    congr 1
    omega
  · simp at h

lemma Grows.of_piece {off pos stop : Nat} {q q' : Queues} (ho : off ≤ pos)
    (h : Grows pos (slice p (pos - off) (stop - off)) q q') : Grows off p q q' :=
  ⟨h.keeps, fun hx => (h.only hx).imp_right fun ⟨h1, h2⟩ =>
    ⟨le_trans ho h1, slice_payload ho h1 h2⟩, h.tail_le, h.behind⟩

lemma lastEnd_le_of_forall {lo x : Nat} {l : List Seg} (hlo : lo ≤ x)
    (h : ∀ sg ∈ l, sg.endOff ≤ x) : lastEnd lo l ≤ x := by
  induction l generalizing lo with
  | nil => exact hlo
  | cons sg t ih =>
    exact ih (h sg (by simp)) fun s hs => h s (mem_cons_of_mem _ hs)

/-- The rest of an ascending list starts at its first segment. -/
lemma asc_drop {lo stop i : Nat} {l : List Seg} (h : Asc lo l)
    (hhead : ∀ sg, l[i]? = some sg → stop ≤ sg.off) : Asc stop (l.drop i) := by
  have h' := h
  rw [← take_append_drop i l] at h'
  have hd := (asc_append.mp h').2
  cases hdrop : l.drop i with
  | nil => trivial
  | cons sg t =>
    rw [hdrop] at hd
    have : l[i]? = some sg := by
      have := congrArg (fun m => m[0]?) hdrop
      simpa using this
    exact ⟨hhead sg this, hd.2⟩

/-- At the contiguous end no out-of-order segment lies before the split. -/
lemma Wf.after_tail (h : q.Wf a) : q.ooq.drop (after q.rTail q.ooq) = q.ooq := by
  obtain ⟨h1, _⟩ := h.asc.split_after q.rTail
  have hnil : q.ooq.take (after q.rTail q.ooq) = [] := by
    apply eq_nil_iff_forall_not_mem.mpr
    intro sg hs
    have hle := h1 sg hs
    obtain ⟨h2, h3, _⟩ := h.asc.bounds (mem_of_mem_take hs)
    have := lt_endOff h3
    omega
  have := take_append_drop (after q.rTail q.ooq) q.ooq
  rwa [hnil, nil_append] at this

/-- One piece `[pos, stop)` of the payload that no segment holds. -/
lemma copyPiece_spec {a off pos : Nat} (p : List Byte) (stop : Nat) (lim left : Int) (hw : q.Wf a)
    (ho : off ≤ pos) (ht : q.rTail ≤ pos) (hs : pos < stop) (hp : stop ≤ off + p.length)
    (hnext : ∀ sg, q.ooq[after pos q.ooq]? = some sg → stop ≤ sg.off) :
    (q.copyPiece lim off p (after pos q.ooq) pos stop left).1.Wf a ∧
      Grows off p q (q.copyPiece lim off p (after pos q.ooq) pos stop left).1 ∧
      (pos = q.rTail →
        stop ≤ (q.copyPiece lim off p (after pos q.ooq) pos stop left).1.rTail) := by
  have hlen : (slice p (pos - off) (stop - off)).length = stop - pos := by
    rw [length_slice (by omega)]
    omega
  have hR : Asc (pos + (slice p (pos - off) (stop - off)).length)
      (q.ooq.drop (after pos q.ooq)) := by
    rw [hlen]
    exact asc_drop hw.asc fun sg hsg => by have := hnext sg hsg; omega
  rw [copyPiece]
  by_cases heq : pos = q.rTail
  · -- in order: the whole piece is appended
    subst heq
    rw [if_pos rfl]
    rw [hw.after_tail] at hR
    have hne : slice p (q.rTail - off) (stop - off) ≠ [] := by
      rw [← length_pos_iff, hlen]
      omega
    obtain ⟨h1, h2, h3, h4⟩ := appendCopy_spec left hw hne hR
    refine ⟨h1, ?_, fun _ => by omega⟩
    refine Grows.of_piece ho
      ⟨fun h => (h3 _ _).mpr (.inl h), fun h => (h3 _ _).mp h, by omega, h4⟩
  rw [if_neg heq]
  obtain ⟨h1, _⟩ := hw.asc.split_after pos
  have hi : after pos q.ooq ≤ q.ooq.length := by
    rw [after, search_eq (hw.asc.pairwise_after pos)]
    exact (takeWhile_sublist _).length_le
  have hlast : lastEnd (q.rTail + 1) (q.ooq.take (after pos q.ooq)) ≤ pos :=
    lastEnd_le_of_forall (by omega) h1
  obtain ⟨h2, h3⟩ := insertCopy_spec lim left hw hi hlast hR
  exact ⟨h2, h3.of_piece ho, fun h => absurd h heq⟩

/-- **Copying a frame.** It keeps the queues well formed and grows them by the frame. -/
lemma copyLoop_spec {a off : Nat} (lim : Int) (fuel pos : Nat) (q : Queues) (left : Int)
    (hw : q.Wf a) (ho : off ≤ pos) :
    (copyLoop lim off p fuel pos q left).1.Wf a ∧
      Grows off p q (copyLoop lim off p fuel pos q left).1 := by
  induction fuel generalizing pos q left with
  | zero => exact ⟨hw, .refl off p q⟩
  | succ fuel ih =>
    rw [copyLoop]
    split
    next hlt =>
      split
      · exact ih q.rTail q left hw (by omega)
      rename_i htail
      dsimp only
      split
      next sg hsg =>
        split
        · -- held by that segment: skip to its end
          have := (hw.asc.split_after pos).2 sg
            (mem_of_getElem? (i := 0) (by rw [getElem?_drop]; simpa using hsg))
          exact ih sg.endOff q left hw (by omega)
        obtain ⟨h1, h2, _⟩ := copyPiece_spec p (min (off + p.length) sg.off) lim left hw
          ho (by omega) (by omega) (by omega)
          (fun s hs => by rw [hsg] at hs; cases hs; omega)
        obtain ⟨h3, h4⟩ := ih (min (off + p.length) sg.off) _ _ h1 (by omega)
        exact ⟨h3, h2.trans h4⟩
      next hnone =>
      obtain ⟨h1, h2, _⟩ := copyPiece_spec p (off + p.length) lim left hw
        ho (by omega) (by omega) (by omega) (fun s hs => by rw [hnone] at hs; cases hs)
      exact ⟨h1, h2⟩
    · exact ⟨hw, .refl off p q⟩

lemma promoteLoop_dropped (l : List Seg) (q : Queues) (left : Int) :
    (promoteLoop l q left).1.oooDropped = q.oooDropped := by
  induction l generalizing q left with
  | nil => rfl
  | cons sg t ih =>
    rw [promoteLoop]
    dsimp only
    split
    · split <;> rw [ih]
    · rfl

/-- From a position that is not beyond the contiguous end, all pieces are in order: they are
taken whole and nothing is dropped. -/
lemma copyLoop_inOrder {a off : Nat} (lim : Int) (fuel pos : Nat) (q : Queues) (left : Int)
    (hw : q.Wf a) (ho : off ≤ pos) (ht : pos ≤ q.rTail) (hf : off + p.length ≤ pos + fuel) :
    off + p.length ≤ (copyLoop lim off p fuel pos q left).1.rTail ∧
      (copyLoop lim off p fuel pos q left).1.oooDropped = q.oooDropped := by
  induction fuel generalizing pos q left with
  | zero => exact ⟨le_trans hf ht, rfl⟩
  | succ fuel ih =>
    rw [copyLoop]
    split
    next hlt =>
      split
      · exact ih q.rTail q left hw (by omega) le_rfl (by omega)
      have heq : pos = q.rTail := by omega
      have hdropped : ∀ i stop, (q.copyPiece lim off p i pos stop left).1.oooDropped =
          q.oooDropped := by
        intro i stop
        rw [copyPiece, if_pos heq, appendCopy, promote, promoteLoop_dropped]
        exact (appendLoop_spec _ _ _ q (heq ▸ hw.chain) le_rfl).2.2.2.2.2.1
      dsimp only
      split
      next sg hsg =>
        have hmem : sg ∈ q.ooq := mem_of_getElem? hsg
        have hoff := (hw.asc.bounds hmem).1
        rw [if_neg (by omega)]
        obtain ⟨h1, _, h3⟩ := copyPiece_spec p (min (off + p.length) sg.off) lim left hw
          ho (by omega) (by omega) (by omega)
          (fun s hs => by rw [hsg] at hs; cases hs; omega)
        obtain ⟨h4, h5⟩ := ih (min (off + p.length) sg.off) _ _ h1 (by omega) (h3 heq) (by omega)
        exact ⟨h4, h5.trans (hdropped _ _)⟩
      next hnone =>
      obtain ⟨_, _, h3⟩ := copyPiece_spec p (off + p.length) lim left hw
        ho (by omega) (by omega) (by omega) (fun s hs => by rw [hnone] at hs; cases hs)
      exact ⟨h3 heq, hdropped _ _⟩
    · exact ⟨le_trans (by omega) ht, rfl⟩

end Queues

end Rendr
