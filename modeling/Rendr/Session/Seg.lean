import Rendr.Lib.Ring
import Rendr.Lib.Search

/-!
# Receive segments

A segment is a piece of the received stream together with the buffer it lives in: a *run*, into
which small payloads are copied, or a *reference* to the buffer of one received frame. The
in-order queue `inq` is a ring of segments (`SegRing`), the out-of-order set `ooq` an ascending
list of them.

The file gives the segment operations of the stream (`segRoom`, `growSeg`, `after`, the two
comparisons, `insert`, `cut`) and the vocabulary in which everything else about the receive path
is stated:

* `Holds l x v`: some segment of `l` holds the byte `v` at stream offset `x`;
* `Asc lo l`: non-empty, ascending, disjoint segments, the first at or above `lo`;
* `Chain a l b`: non-empty contiguous segments covering exactly `[a, b)`.

Main results: `ringEqual_iff` and `listEqual_iff` (the two comparisons decide agreement with
every held byte of the compared range) and `growSeg_holds`.
-/

namespace Rendr

open List

/-- A payload byte. -/
abbrev Byte := UInt8

/-- The payload capacity of a run: DATA payloads below it are copied into runs. -/
def runSize : Nat := 16384

/-- The class capacity a run charges: the 16 KiB class with its slack. -/
def runCap : Nat := 16384 + 64

/-- The most payload bytes one DATA call copies under the session lock. -/
def copyBudget : Nat := runSize - 1

/-- One received segment: the payload `b` at offset `off`, in a buffer of capacity `bufCap`. -/
structure Seg where
  off : Nat
  b : List Byte
  /-- the capacity of the slice `b`: how far it can grow into its buffer -/
  cap : Nat
  /-- the capacity of the whole buffer, which is what the segment charges -/
  bufCap : Nat
  /-- a copy run, which grows up to `runSize` -/
  run : Bool
  /-- the payload lies inside what the segment may fill -/
  fits : b.length ≤ if run then runSize else cap
  deriving DecidableEq, Repr

instance : Inhabited Seg := ⟨{ off := 0, b := [], cap := 0, bufCap := 0, run := false, fits := by simp }⟩

/-- The in-order receive queue. -/
abbrev SegRing := Ring Seg

/-- The slice `l[i:j]`. -/
def slice {α : Type} (l : List α) (i j : Nat) : List α := (l.drop i).take (j - i)

variable {x : Nat} {sg : Seg} {q : List Byte}

namespace Seg

/-- The offset just behind the segment. -/
def endOff (sg : Seg) : Nat := sg.off + sg.b.length

/-- The class capacity the segment's buffer charges. -/
def segCap (sg : Seg) : Int := sg.bufCap

/-- The bytes the segment can still grow by: a run up to 16 KiB, a reference up to its buffer's
capacity. -/
def segRoom (sg : Seg) : Nat := (if sg.run then runSize else sg.cap) - sg.b.length

/-- Copy the head of `q` into the room of the segment; the number of bytes copied comes first. -/
def growSeg (t : Seg) (q : List Byte) : Nat × Seg :=
  let m := min t.segRoom q.length
  (m, { t with
    b := t.b ++ q.take m
    fits := by
      have := t.fits
      have hm : m ≤ t.segRoom := min_le_left _ _
      simp only [segRoom] at hm
      rw [length_append, length_take]
      omega })

/-- The segment holds byte `v` at offset `x`. -/
def Has (sg : Seg) (x : Nat) (v : Byte) : Prop := sg.off ≤ x ∧ sg.b[x - sg.off]? = some v

instance (sg : Seg) (x : Nat) (v : Byte) : Decidable (sg.Has x v) :=
  inferInstanceAs (Decidable (_ ∧ _))

lemma Has.bounds {v : Byte} (h : sg.Has x v) : sg.off ≤ x ∧ x < sg.endOff := by
  obtain ⟨h1, h2⟩ := h
  have : x - sg.off < sg.b.length := (List.getElem?_eq_some_iff.mp h2).1
  exact ⟨h1, by rw [endOff]; omega⟩

lemma has_of_bounds (h1 : sg.off ≤ x) (h2 : x < sg.endOff) : ∃ v, sg.Has x v := by
  have h : x - sg.off < sg.b.length := by rw [endOff] at h2; omega
  exact ⟨sg.b[x - sg.off], h1, getElem?_eq_getElem h⟩

lemma lt_endOff (h : sg.b ≠ []) : sg.off < sg.endOff := by
  have := length_pos_iff.mpr h
  rw [endOff]
  omega

@[simp] lemma growSeg_off (t : Seg) (q : List Byte) : (t.growSeg q).2.off = t.off := rfl

lemma growSeg_endOff (t : Seg) (q : List Byte) :
    (t.growSeg q).2.endOff = t.endOff + (t.growSeg q).1 := by
  simp only [endOff, growSeg, length_append, length_take]
  omega

lemma growSeg_fst_le (t : Seg) (q : List Byte) : (t.growSeg q).1 ≤ q.length :=
  min_le_right _ _

lemma growSeg_fst_pos {t : Seg} (hr : 0 < t.segRoom) (hq : q ≠ []) : 0 < (t.growSeg q).1 := by
  have := length_pos_iff.mpr hq
  simp only [growSeg]
  omega

lemma growSeg_fst_of_le {t : Seg} (h : q.length ≤ t.segRoom) : (t.growSeg q).1 = q.length := by
  simp only [growSeg]
  omega

lemma growSeg_ne_nil {t : Seg} (q : List Byte) (h : t.b ≠ []) : (t.growSeg q).2.b ≠ [] := by
  simp [growSeg, h]

/-- A grown segment holds what it held and, behind it, the bytes copied. -/
lemma growSeg_has (t : Seg) (q : List Byte) (x : Nat) (v : Byte) :
    (t.growSeg q).2.Has x v ↔
      t.Has x v ∨ (t.endOff ≤ x ∧ x < t.endOff + (t.growSeg q).1 ∧ q[x - t.endOff]? = some v) := by
  have hm : (t.growSeg q).1 ≤ q.length := growSeg_fst_le t q
  have hb : (t.growSeg q).2.b = t.b ++ q.take (t.growSeg q).1 := rfl
  simp only [Has, growSeg_off, hb, endOff]
  by_cases hx : x - t.off < t.b.length
  · rw [getElem?_append_left hx]
    constructor
    · exact fun h => .inl h
    · rintro (h | h)
      · exact h
      · omega
  rw [getElem?_append_right (by omega), getElem?_eq_none (l := t.b) (by omega)]
  rw [getElem?_take]
  constructor
  · rintro ⟨h1, h2⟩
    have hlt : x - t.off - t.b.length < (t.growSeg q).1 := by
      by_contra hc
      simp [hc] at h2
    rw [if_pos hlt] at h2
    exact .inr ⟨by omega, by omega, by rw [← h2]; congr 1; omega⟩
  rintro (⟨_, h⟩ | ⟨h1, h2, h3⟩)
  · simp at h
  refine ⟨by omega, ?_⟩
  rw [if_pos (by omega), ← h3]
  congr 1
  omega

end Seg

/-! ### What a list of segments holds -/

/-- Some segment of `l` holds byte `v` at offset `x`. -/
def Holds (l : List Seg) (x : Nat) (v : Byte) : Prop := ∃ sg ∈ l, sg.Has x v

instance (l : List Seg) (x : Nat) (v : Byte) : Decidable (Holds l x v) :=
  inferInstanceAs (Decidable (∃ sg ∈ l, sg.Has x v))

@[simp] lemma holds_nil (x : Nat) (v : Byte) : ¬ Holds [] x v := by simp [Holds]

@[simp] lemma holds_cons (sg : Seg) (l : List Seg) (x : Nat) (v : Byte) :
    Holds (sg :: l) x v ↔ sg.Has x v ∨ Holds l x v := by simp [Holds]

@[simp] lemma holds_append (l m : List Seg) (x : Nat) (v : Byte) :
    Holds (l ++ m) x v ↔ Holds l x v ∨ Holds m x v := by
  simp only [Holds, mem_append, or_and_right, exists_or]

/-- Non-empty, ascending and disjoint segments, the first at or above `lo`. Neighbours may
touch. -/
def Asc : Nat → List Seg → Prop
  | _, [] => True
  | lo, sg :: t => lo ≤ sg.off ∧ sg.b ≠ [] ∧ Asc sg.endOff t

/-- Non-empty contiguous segments covering exactly `[a, b)`. -/
def Chain : Nat → List Seg → Nat → Prop
  | a, [], b => a = b
  | a, sg :: t, b => sg.off = a ∧ sg.b ≠ [] ∧ Chain sg.endOff t b

/-- Where a list of segments that starts at or above `lo` ends. -/
def lastEnd : Nat → List Seg → Nat
  | lo, [] => lo
  | _, sg :: t => lastEnd sg.endOff t

@[simp] lemma lastEnd_append (lo : Nat) (l m : List Seg) :
    lastEnd lo (l ++ m) = lastEnd (lastEnd lo l) m := by
  induction l generalizing lo with
  | nil => rfl
  | cons sg t ih => simp [lastEnd, ih]

variable {l : List Seg}

lemma Asc.mono {lo lo' : Nat} (h : Asc lo l) (hle : lo' ≤ lo) : Asc lo' l := by
  cases l with
  | nil => trivial
  | cons sg t => exact ⟨le_trans hle h.1, h.2⟩

variable {lo : Nat}

lemma Asc.le_lastEnd (h : Asc lo l) : lo ≤ lastEnd lo l := by
  induction l generalizing lo with
  | nil => exact Nat.le_refl lo
  | cons sg t ih =>
    obtain ⟨h1, h2, h3⟩ := h
    have := ih h3
    have := Seg.lt_endOff h2
    simp only [lastEnd]
    omega

lemma asc_append {l m : List Seg} : Asc lo (l ++ m) ↔ Asc lo l ∧ Asc (lastEnd lo l) m := by
  induction l generalizing lo with
  | nil => simp [Asc, lastEnd]
  | cons sg t ih => simp only [cons_append, Asc, lastEnd, ih, and_assoc]

/-- Every segment of an ascending list lies between its start and its end. -/
lemma Asc.bounds (h : Asc lo l) (hs : sg ∈ l) :
    lo ≤ sg.off ∧ sg.b ≠ [] ∧ sg.endOff ≤ lastEnd lo l := by
  obtain ⟨l1, l2, rfl⟩ := append_of_mem hs
  obtain ⟨h1, h2, h3, h4⟩ := asc_append.mp h
  have := h1.le_lastEnd
  have := h4.le_lastEnd
  refine ⟨by omega, h3, ?_⟩
  simpa [lastEnd] using this

lemma Asc.holds_bounds (h : Asc lo l) {v : Byte} (hx : Holds l x v) :
    lo ≤ x ∧ x < lastEnd lo l := by
  obtain ⟨sg, hs, hh⟩ := hx
  obtain ⟨h1, _, h3⟩ := h.bounds hs
  obtain ⟨h4, h5⟩ := hh.bounds
  omega

variable {a b : Nat}

lemma chain_append {l m : List Seg} : Chain a (l ++ m) b ↔ ∃ c, Chain a l c ∧ Chain c m b := by
  induction l generalizing a with
  | nil => simp [Chain]
  | cons sg t ih =>
    simp only [cons_append, Chain, ih]
    constructor
    · rintro ⟨h1, h2, c, h3, h4⟩
      exact ⟨c, ⟨h1, h2, h3⟩, h4⟩
    · rintro ⟨c, ⟨h1, h2, h3⟩, h4⟩
      exact ⟨h1, h2, c, h3, h4⟩

lemma Chain.asc (h : Chain a l b) : Asc a l ∧ lastEnd a l = b := by
  induction l generalizing a with
  | nil => exact ⟨trivial, h⟩
  | cons sg t ih =>
    obtain ⟨rfl, h2, h3⟩ := h
    obtain ⟨h4, h5⟩ := ih h3
    exact ⟨⟨le_rfl, h2, h4⟩, h5⟩

lemma Chain.le (h : Chain a l b) : a ≤ b := by
  obtain ⟨h1, h2⟩ := h.asc
  exact h2 ▸ h1.le_lastEnd

/-- A chain holds a byte at every offset it covers. -/
lemma Chain.covers (h : Chain a l b) (hx : a ≤ x) (hb : x < b) : ∃ v, Holds l x v := by
  induction l generalizing a with
  | nil =>
    rw [Chain] at h
    omega
  | cons sg t ih =>
    obtain ⟨h1, h2, h3⟩ := h
    by_cases hlt : x < sg.endOff
    · obtain ⟨v, hv⟩ := Seg.has_of_bounds (by omega) hlt
      exact ⟨v, (holds_cons ..).mpr (.inl hv)⟩
    · obtain ⟨v, hv⟩ := ih h3 (by omega)
      exact ⟨v, (holds_cons ..).mpr (.inr hv)⟩

lemma Chain.holds_bounds (h : Chain a l b) {v : Byte} (hx : Holds l x v) : a ≤ x ∧ x < b := by
  obtain ⟨h1, h2⟩ := h.asc
  exact h2 ▸ h1.holds_bounds hx

/-! ### The out-of-order list -/

/-- The index of the first segment ending after `x`. -/
def after (x : Nat) (l : List Seg) : Nat := search (fun sg => sg.endOff ≤ x) l

/-- Insert `sg` before index `i`. -/
def insertAt (i : Nat) (sg : Seg) (l : List Seg) : List Seg := l.take i ++ sg :: l.drop i

/-- Remove `l[i:j]`. -/
def cut (i j : Nat) (l : List Seg) : List Seg := if j ≤ i then l else l.take i ++ l.drop j

/-- The class capacity the segments of `l` charge together. -/
def charge (l : List Seg) : Int := (l.map Seg.segCap).sum

lemma Asc.pairwise_after (h : Asc lo l) (x : Nat) :
    l.Pairwise fun a b => decide (b.endOff ≤ x) = true → decide (a.endOff ≤ x) = true := by
  induction l generalizing lo with
  | nil => exact List.Pairwise.nil
  | cons sg t ih =>
    obtain ⟨h1, h2, h3⟩ := h
    refine pairwise_cons.mpr ⟨fun b hb => ?_, ih h3⟩
    obtain ⟨h4, h5, _⟩ := h3.bounds hb
    have := Seg.lt_endOff h5
    simp only [decide_eq_true_eq]
    omega

/-- **The split found by `after`.** In an ascending list the segments before index `after x` end
at or before `x`; those from it on end behind `x`. -/
lemma Asc.split_after (h : Asc lo l) (x : Nat) :
    (∀ sg ∈ l.take (after x l), sg.endOff ≤ x) ∧
      (∀ sg ∈ l.drop (after x l), x < sg.endOff) := by
  have hp := h.pairwise_after x
  constructor
  · intro sg hs
    rw [after, take_search hp] at hs
    simpa using mem_takeWhile_imp hs
  intro sg hs
  rw [after, drop_search hp] at hs
  have hasc : Asc (lastEnd lo (l.takeWhile fun sg => decide (sg.endOff ≤ x)))
      (l.dropWhile fun sg => decide (sg.endOff ≤ x)) := by
    rw [← takeWhile_append_dropWhile (p := fun sg => decide (sg.endOff ≤ x)) (l := l)] at h
    exact (asc_append.mp h).2
  cases hd : l.dropWhile fun sg => decide (sg.endOff ≤ x) with
  | nil => simp [hd] at hs
  | cons hdg tl =>
    have hhd : x < hdg.endOff := by
      have := head_dropWhile_not (l := l) (fun sg : Seg => decide (sg.endOff ≤ x)) (by simp [hd])
      simpa [hd] using this
    rw [hd] at hs hasc
    rcases mem_cons.mp hs with rfl | hs
    · exact hhd
    · obtain ⟨h4, h5, _⟩ := hasc.2.2.bounds hs
      have := Seg.lt_endOff h5
      omega

/-! ### Comparing a payload with held bytes -/

lemma getElem?_slice {α : Type} (l : List α) (i j k : Nat) :
    (slice l i j)[k]? = if k < j - i then l[i + k]? else none := by
  simp [slice, getElem?_take]

/-- Two slices over one range of offsets are equal exactly when they agree byte by byte. -/
lemma slice_eq_slice_iff {α : Type} {l m : List α} {lo mo a b : Nat} (hl : lo ≤ a)
    (hm : mo ≤ a) (hlb : b ≤ lo + l.length) :
    slice l (a - lo) (b - lo) = slice m (a - mo) (b - mo) ↔
      ∀ x v, a ≤ x → x < b → l[x - lo]? = some v → m[x - mo]? = some v := by
  constructor
  · intro h x v h1 h2 hv
    have hx := congrArg (fun s => s[x - a]?) h
    simp only [getElem?_slice] at hx
    rw [if_pos (by omega), if_pos (by omega)] at hx
    rw [show x - mo = a - mo + (x - a) by omega, ← hx, ← hv]
    congr 1
    omega
  intro h
  apply ext_getElem?
  intro k
  simp only [getElem?_slice]
  by_cases hk : k < b - a
  · rw [if_pos (by omega), if_pos (by omega)]
    have hlt : a - lo + k < l.length := by omega
    rw [getElem?_eq_getElem hlt]
    refine (h (a + k) l[a - lo + k] (by omega) (by omega) ?_).symm.trans ?_
    · rw [show a + k - lo = a - lo + k by omega, getElem?_eq_getElem hlt]
    · congr 1
      omega
  · rw [if_neg (by omega), if_neg (by omega)]

/-- Compare the payload `p` at `off` with the segments of `l`, in order, until one starts at or
beyond the payload's end. -/
def overlapEqual (off : Nat) (p : List Byte) : List Seg → Bool
  | [] => true
  | sg :: t =>
    if sg.off < off + p.length then
      let a := max off sg.off
      let b := min (off + p.length) sg.endOff
      slice sg.b (a - sg.off) (b - sg.off) == slice p (a - off) (b - off) && overlapEqual off p t
    else true

/-- The payload `p` at `off` agrees with every out-of-order segment it overlaps. -/
def listEqual (off : Nat) (p : List Byte) (l : List Seg) : Bool :=
  overlapEqual off p (l.drop (after off l))

lemma overlapEqual_iff {lo off : Nat} {p : List Byte} (h : Asc lo l)
    (hafter : ∀ sg ∈ l, off < sg.endOff) :
    overlapEqual off p l = true ↔
      ∀ x v, off ≤ x → x < off + p.length → Holds l x v → p[x - off]? = some v := by
  induction l generalizing lo with
  | nil => simp [overlapEqual]
  | cons sg t ih =>
    obtain ⟨h1, h2, h3⟩ := h
    rw [overlapEqual]
    by_cases hlt : sg.off < off + p.length
    · rw [if_pos hlt]
      simp only [Bool.and_eq_true, beq_iff_eq,
        ih h3 fun s hs => hafter s (mem_cons_of_mem _ hs)]
      rw [slice_eq_slice_iff (l := sg.b) (m := p) (by omega) (by omega)
        (by simp only [Seg.endOff]; omega)]
      simp only [holds_cons]
      constructor
      · rintro ⟨hh, ht⟩ x v hx1 hx2 (hv | hv)
        · have := hv.bounds
          exact hh x v (by omega) (by omega) hv.2
        · exact ht x v hx1 hx2 hv
      · intro hall
        refine ⟨fun x v hx1 hx2 hv => ?_, fun x v hx1 hx2 hv => hall x v hx1 hx2 (.inr hv)⟩
        exact hall x v (by omega) (by omega) (.inl ⟨by omega, hv⟩)
    -- the list ascends, so nothing from here on overlaps the payload
    rw [if_neg hlt]
    refine ⟨fun _ x v hx1 hx2 hv => ?_, fun _ => rfl⟩
    have : Asc sg.off (sg :: t) := ⟨le_rfl, h2, h3⟩
    have := this.holds_bounds hv
    omega

/-- **The out-of-order comparison.** On an ascending list `listEqual` decides whether the payload
agrees with every held byte of its range. -/
lemma listEqual_iff {lo off : Nat} {p : List Byte} (h : Asc lo l) :
    listEqual off p l = true ↔
      ∀ x v, off ≤ x → x < off + p.length → Holds l x v → p[x - off]? = some v := by
  obtain ⟨htake, hdrop⟩ := h.split_after off
  have hsplit := take_append_drop (after off l) l
  have hasc := h
  rw [← hsplit] at hasc
  rw [listEqual, overlapEqual_iff (asc_append.mp hasc).2 hdrop]
  refine forall₄_congr fun x v hx1 _ => ?_
  have : Holds l x v ↔ Holds (l.drop (after off l)) x v := by
    conv_lhs => rw [← hsplit]
    rw [holds_append]
    refine or_iff_right ?_
    rintro ⟨sg, hs, hv⟩
    have := htake sg hs
    have := hv.bounds
    omega
  rw [this]

/-- Compare `q` with the in-order bytes from offset `a` on, segment by segment. -/
def ringEqual : List Seg → Nat → List Byte → Bool
  | [], _, _ => true
  | sg :: t, a, q =>
    if q.isEmpty then true
    else if sg.endOff ≤ a then ringEqual t a q
    else
      let h := sg.b.drop (a - sg.off)
      let m := min h.length q.length
      if h.take m == q.take m then ringEqual t (a + m) (q.drop m) else false

/-- **The in-order comparison.** On a chain `ringEqual` decides whether `q` at `a` agrees with
every held byte of its range. -/
lemma ringEqual_iff {c b a : Nat} (h : Chain c l b) (hc : c ≤ a) :
    ringEqual l a q = true ↔
      ∀ x v, a ≤ x → x < a + q.length → Holds l x v → q[x - a]? = some v := by
  induction l generalizing c a q with
  | nil => simp [ringEqual]
  | cons sg t ih =>
    obtain ⟨rfl, h2, h3⟩ := h
    rw [ringEqual]
    by_cases hq : q = []
    · subst hq
      simp only [isEmpty_nil, if_true, length_nil, true_iff]
      intro x v h4 h5
      omega
    rw [if_neg (by simpa using hq)]
    by_cases hle : sg.endOff ≤ a
    · -- the segment ends before the compared range
      rw [if_pos hle, ih h3 hle]
      refine forall₄_congr fun x v hx1 _ => ?_
      rw [holds_cons]
      have : ¬ sg.Has x v := fun hv => by have := hv.bounds; omega
      simp [this]
    rw [if_neg hle]
    have hend : sg.endOff = sg.off + sg.b.length := rfl
    dsimp only
    rw [length_drop]
    generalize hm : min (sg.b.length - (a - sg.off)) q.length = m
    have htake : ((sg.b.drop (a - sg.off)).take m == q.take m) = true ↔
        ∀ x v, a ≤ x → x < a + m → sg.b[x - sg.off]? = some v → q[x - a]? = some v := by
      have : a + m ≤ sg.off + sg.b.length := by omega
      have := slice_eq_slice_iff (m := q) hc (Nat.le_refl a) this
      rw [← this, beq_iff_eq]
      simp only [slice, Nat.sub_self, drop_zero, Nat.add_sub_cancel_left]
      rw [show a + m - sg.off - (a - sg.off) = m by omega, Nat.sub_zero]
    by_cases heq : ((sg.b.drop (a - sg.off)).take m == q.take m) = true
    · rw [if_pos heq]
      -- either the payload is used up or the comparison goes on at the segment's end
      by_cases hfull : m = q.length
      · have : ringEqual t (a + m) (q.drop m) = true := by
          rw [hfull, drop_length]
          cases t <;> rfl
        rw [this]
        refine ⟨fun _ x v hx1 hx2 hv => ?_, fun _ => rfl⟩
        rw [holds_cons] at hv
        rcases hv with hv | hv
        · exact htake.mp heq x v hx1 (by omega) hv.2
        · have := h3.holds_bounds hv
          omega
      have ham : a + m = sg.endOff := by omega
      rw [ih h3 (by omega)]
      have hdrop : ∀ x, a + m ≤ x → (q.drop m)[x - (a + m)]? = q[x - a]? := by
        intro x hx
        rw [getElem?_drop]
        congr 1
        omega
      constructor
      · intro hall x v hx1 hx2 hv
        rw [holds_cons] at hv
        rcases hv with hv | hv
        · have := hv.bounds
          exact htake.mp heq x v hx1 (by omega) hv.2
        · have := h3.holds_bounds hv
          rw [← hdrop x (by omega)]
          exact hall x v (by omega) (by rw [length_drop]; omega) hv
      intro hall x v hx1 hx2 hv
      rw [length_drop] at hx2
      rw [hdrop x hx1]
      exact hall x v (by omega) (by omega) ((holds_cons ..).mpr (.inr hv))
    rw [if_neg heq]
    simp only [Bool.false_eq_true, false_iff]
    intro hall
    apply heq
    rw [htake]
    intro x v hx1 hx2 hv
    exact hall x v hx1 (by omega) ((holds_cons ..).mpr (.inl ⟨by omega, hv⟩))

end Rendr
