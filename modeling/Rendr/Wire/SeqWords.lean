import Mathlib.Tactic
import Rendr.Wire.Window

/-!
# The dedup window in words

`wire.SeqWindow` as the code stores it: words of 64 bits, cleared a word's share at a time. Seqs
end before `2 ^ 62`, so no sum of them wraps.

* `accept_window` — read bit by bit, the words are the bitmap of `SeqWindow`.
* `seq_window_reference` — every verdict is that of the reference, which knows the newest seq and
  the seqs taken.
-/

namespace Rendr.Wire

open List Function

/-- A word of the bitmap. -/
abbrev Word := BitVec 64

/-- The word of bit `i`: `(i / 64) & (len(bits) − 1)`. -/
def ringWord (words i : Nat) : Nat := (i / 64) &&& (words - 1)

/-- The bits `off … off + k − 1` of a word. -/
def wordMask (off k : Nat) : Word := (BitVec.allOnes 64 >>> (64 - k)) <<< off

/-- `clearRing`. -/
def clearWords (words : Nat) (bits : Nat → Word) (start n : Nat) : Nat → Word :=
  if n = 0 then bits
  else
    let off := start % 64
    let k := min (64 - off) n
    let i := ringWord words start
    clearWords words (update bits i (bits i &&& ~~~wordMask off k)) (start + k) (n - k)
termination_by n
decreasing_by omega

/-- `1 << (i % 64)`. -/
def wordBit (i : Nat) : Word := 1#64 <<< (i % 64)

/-- `setRing`. -/
def setWords (words : Nat) (bits : Nat → Word) (i : Nat) : Nat → Word :=
  let w := ringWord words i
  update bits w (bits w ||| wordBit i)

/-- `SeqWindow`, its storage `words` words. -/
structure SeqWords where
  top : Nat
  started : Bool
  words : Nat
  bits : Nat → Word
  storage : minSeqWindowWords ≤ words ∧ words &&& (words - 1) = 0

namespace SeqWords

/-- `Init`; the code panics where this is `none`. -/
def init (words : Nat) : Option SeqWords :=
  if h : minSeqWindowWords ≤ words ∧ words &&& (words - 1) = 0 then
    some ⟨0, false, words, fun _ => 0, h⟩
  else none

/-- The end of `Accept`: `seq` is the newest. -/
def advance (w : SeqWords) (seq : Nat) (bits : Nat → Word) : SeqWords :=
  { w with top := seq, started := true, bits := setWords w.words bits seq }

/-- `markRing`. -/
def mark (w : SeqWords) (seq : Nat) : SeqWords × WindowVerdict :=
  if w.bits (ringWord w.words seq) &&& wordBit seq ≠ 0 then (w, .duplicate)
  else ({ w with bits := setWords w.words w.bits seq }, .new)

/-- `Accept`; the width is `len(w.bits) · 64`. -/
def accept (w : SeqWords) (seq : Nat) : SeqWords × WindowVerdict :=
  if w.started = false then (w.advance seq w.bits, .new)
  else if w.top < seq then
    if w.words * 64 ≤ seq - w.top then (w.advance seq fun _ => 0, .new)
    else (w.advance seq (clearWords w.words w.bits (w.top + 1) (seq - w.top)), .new)
  else if w.words * 64 ≤ w.top - seq then (w, .late)
  else w.mark seq

end SeqWords

/-! ### The words, bit by bit -/

/-- The bitmap that the words are. -/
def ringBits (bits : Nat → Word) (j : Nat) : Bool := (bits (j / 64)).getLsbD (j % 64)

/-- The ring's mask takes the remainder, as its length is a power of two. -/
lemma ringWord_eq {words : Nat} (h : minSeqWindowWords ≤ words ∧ words &&& (words - 1) = 0)
    (i : Nat) : ringWord words i = i % (words * 64) / 64 := by
  obtain ⟨e, rfl⟩ := (Nat.and_sub_one_eq_zero_iff_isPowerOfTwo
    (by unfold minSeqWindowWords at h; omega)).mp h.2
  rw [ringWord, Nat.and_two_pow_sub_one_eq_mod, Nat.mod_mul_left_div_self]

/-- A number in the word of another is its bit number there. -/
lemma eq_ring_iff {words i j : Nat} :
    j = i % (words * 64) ↔ j / 64 = i % (words * 64) / 64 ∧ j % 64 = i % 64 := by
  have hmod := Nat.mod_mul_left_mod i words 64
  omega

lemma ringBits_zero : (ringBits fun _ => 0) = fun _ => false := by
  funext j
  simp [ringBits]

lemma ringBits_update (bits : Nat → Word) (w : Nat) (x : Word) (j : Nat) :
    ringBits (update bits w x) j =
      if j / 64 = w then x.getLsbD (j % 64) else ringBits bits j := by
  rw [ringBits, update_apply]
  split <;> rfl

lemma getLsbD_wordBit {i b : Nat} (hb : b < 64) :
    (wordBit i).getLsbD b = decide (b = i % 64) := by
  rw [wordBit, ← BitVec.twoPow_eq, BitVec.getLsbD_twoPow, Bool.eq_iff_iff]
  simp only [Bool.and_eq_true, decide_eq_true_eq]
  omega

lemma clearRing_add (width : Nat) (k m start : Nat) (bits : Nat → Bool) :
    clearRing width start (k + m) bits =
      clearRing width (start + k) m (clearRing width start k bits) := by
  induction k generalizing start bits with
  | zero => rw [Nat.zero_add]; rfl
  | succ k ih => rw [Nat.add_right_comm, clearRing, ih, clearRing, Nat.add_right_comm start 1 k]; rfl

lemma getLsbD_wordMask {off k b : Nat} (hk : off + k ≤ 64) (hb : b < 64) :
    (wordMask off k).getLsbD b = (decide (off ≤ b) && decide (b < off + k)) := by
  rw [wordMask, BitVec.getLsbD_shiftLeft, BitVec.getLsbD_ushiftRight, BitVec.getLsbD_allOnes,
    Bool.eq_iff_iff]
  simp only [Bool.and_eq_true, Bool.not_eq_true', decide_eq_true_eq, decide_eq_false_iff_not]
  omega

section Storage

variable {words : Nat} (hw : minSeqWindowWords ≤ words ∧ words &&& (words - 1) = 0)

include hw

lemma ringBits_setWords (bits : Nat → Word) (i : Nat) :
    ringBits (setWords words bits i) = setRing (words * 64) (ringBits bits) i := by
  funext j
  have hj := Nat.mod_lt j (show 0 < 64 by decide)
  rw [setWords, ringBits_update, ringWord_eq hw, setRing, update_apply]
  by_cases hword : j / 64 = i % (words * 64) / 64
  · rw [if_pos hword, ← hword, BitVec.getLsbD_or, getLsbD_wordBit hj]
    by_cases hbit : j % 64 = i % 64
    · rw [if_pos (eq_ring_iff.mpr ⟨hword, hbit⟩), decide_eq_true hbit, Bool.or_true]
    · rw [if_neg fun h => hbit (eq_ring_iff.mp h).2, decide_eq_false hbit, Bool.or_false, ringBits]
  · rw [if_neg hword, if_neg fun h => hword (eq_ring_iff.mp h).1]

/-- One word's share of a clearing. -/
lemma ringBits_clear (bits : Nat → Word) {start k : Nat} (hk : start % 64 + k ≤ 64) :
    let i := ringWord words start
    ringBits (update bits i (bits i &&& ~~~wordMask (start % 64) k)) =
      clearRing (words * 64) start k (ringBits bits) := by
  intro i
  funext j
  have hj := Nat.mod_lt j (show 0 < 64 by decide)
  -- the bits of the share lie in one word
  have hsame : ∀ m < k, (start + m) % (words * 64) / 64 = i ∧
      (start + m) % 64 = start % 64 + m := by
    intro m hm
    have hdiv : (start + m) / 64 = start / 64 := by omega
    rw [← ringWord_eq hw, ringWord, hdiv]
    exact ⟨rfl, by omega⟩
  rw [Bool.eq_iff_iff, clearRing_apply, ringBits_update]
  by_cases hword : j / 64 = i
  · rw [if_pos hword, ← hword, BitVec.getLsbD_and, BitVec.getLsbD_not, getLsbD_wordMask hk hj,
      Bool.and_eq_true, ringBits]
    refine and_congr_right fun _ => ?_
    simp only [hj, decide_true, Bool.true_and, Bool.not_eq_true', Bool.and_eq_false_iff,
      decide_eq_false_iff_not]
    constructor
    · intro hout m hm heq
      have hbit := (eq_ring_iff.mp heq.symm).2
      have := (hsame m hm).2
      omega
    intro hall
    by_contra hin
    refine hall (j % 64 - start % 64) (by omega) (eq_ring_iff.mpr ?_).symm
    have := hsame (j % 64 - start % 64) (by omega)
    omega
  · rw [if_neg hword, iff_self_and]
    exact fun _ m hm heq => hword (by rw [← heq]; exact (hsame m hm).1)

/-- **A clearing, word by word**, clears the bits one by one. -/
lemma ringBits_clearWords (bits : Nat → Word) (start n : Nat) :
    ringBits (clearWords words bits start n) = clearRing (words * 64) start n (ringBits bits) := by
  induction bits, start, n using clearWords.induct words with
  | case1 bits start =>
    rw [clearWords, if_pos rfl]
    rfl
  | case2 bits start n h off k i ih =>
    have hsplit : k + (n - k) = n := by omega
    have hshare : start % 64 + k ≤ 64 := by omega
    rw [clearWords, if_neg h]
    refine ih.trans ?_
    rw [ringBits_clear hw bits hshare, ← clearRing_add, hsplit]

end Storage

/-! ### The code and the bitmap -/

namespace SeqWords

/-- The window that the words stand for. -/
def window (w : SeqWords) : SeqWindow := ⟨w.top, w.started, w.words, ringBits w.bits, w.storage⟩

lemma advance_window (w : SeqWords) (seq : Nat) (bits : Nat → Word) :
    (w.advance seq bits).window = w.window.advance seq (ringBits bits) := by
  simp only [window, advance, SeqWindow.advance, ringBits_setWords w.storage, SeqWindow.width]

/-- The word of a seq has its bit. -/
lemma word_marked (w : SeqWords) (seq : Nat) :
    w.bits (ringWord w.words seq) &&& wordBit seq ≠ 0 ↔
      w.window.bits (seq % w.window.width) = true := by
  have hb := Nat.mod_lt seq (show 0 < 64 by decide)
  change _ ↔ (w.bits (seq % (w.words * 64) / 64)).getLsbD (seq % (w.words * 64) % 64) = true
  rw [wordBit, ← BitVec.twoPow_eq, BitVec.and_twoPow, ringWord_eq w.storage, Nat.mod_mul_left_mod]
  split
  next h =>
    refine iff_of_true (fun hzero => ?_) h
    have hbit := congrArg (BitVec.getLsbD · (seq % 64)) hzero
    simp [BitVec.getLsbD_twoPow] at hbit
    omega
  next h => exact iff_of_false (fun hne => hne rfl) h

/-- **The code and the bitmap agree** on every seq. -/
lemma accept_window (w : SeqWords) (seq : Nat) :
    ((w.accept seq).1.window, (w.accept seq).2) = w.window.accept seq := by
  unfold SeqWindow.accept
  change _ = if w.started = false then _ else if w.top < seq then
    if w.words * 64 ≤ seq - w.top then _ else _ else if w.words * 64 ≤ w.top - seq then _ else _
  unfold accept
  split
  · rw [advance_window]
    rfl
  split
  · split
    · rw [advance_window, ringBits_zero]
    · rw [advance_window, ringBits_clearWords w.storage]
      rfl
  split
  · rfl
  unfold mark
  by_cases hmark : w.window.bits (seq % w.window.width) = true
  · rw [if_pos ((w.word_marked seq).mpr hmark), if_pos hmark]
  · rw [if_neg fun h => hmark ((w.word_marked seq).mp h), if_neg hmark]
    simp only [window, ringBits_setWords w.storage, SeqWindow.width]

end SeqWords

/-! ### The reference -/

/-- **The reference**: the newest seq taken and all those taken. -/
structure Reference where
  newest : Option Nat
  taken : List Nat

/-- The verdict of the reference: the first seq and one above the newest are new, one `width` or
more below it is late, any other is a duplicate iff it was taken. -/
def Reference.accept (width : Nat) (r : Reference) (seq : Nat) : Reference × WindowVerdict :=
  match r.newest with
  | none => (⟨some seq, seq :: r.taken⟩, .new)
  | some top =>
    if top < seq then (⟨some seq, seq :: r.taken⟩, .new)
    else if width ≤ top - seq then (r, .late)
    else if seq ∈ r.taken then (r, .duplicate)
    else (⟨some top, seq :: r.taken⟩, .new)

/-- The verdicts on a sequence of seqs. -/
def verdicts {σ : Type} (accept : σ → Nat → σ × WindowVerdict) : σ → List Nat → List WindowVerdict
  | _, [] => []
  | s, seq :: seqs => (accept s seq).2 :: verdicts accept (accept s seq).1 seqs

/-- The seqs taken as new, in order. -/
def newSeqs (seqs : List Nat) (vs : List WindowVerdict) : List Nat :=
  ((seqs.zip vs).filter (·.2 = .new)).map Prod.fst

/-- The window marks what the reference knows. -/
structure Follows (w : SeqWindow) (r : Reference) : Prop where
  seen : w.Seen r.taken
  newest : r.newest = if w.started then some w.top else none

/-- **One seq**: the window and the reference give the same verdict, and go on together. -/
lemma Follows.accept {w : SeqWindow} {r : Reference} (h : Follows w r) (seq : Nat) :
    (w.accept seq).2 = (r.accept w.width seq).2 ∧
      Follows (w.accept seq).1 (r.accept w.width seq).1 := by
  have hnew := fun hv : (w.accept seq).2 = .new => (h.seen.accept_new hv).2
  have hn := h.newest
  unfold Reference.accept
  by_cases hs : w.started = false
  · have e : w.accept seq = (w.advance seq w.bits, .new) := if_pos hs
    rw [e] at hnew ⊢
    rw [hs] at hn
    simp only [hn]
    exact ⟨rfl, hnew rfl, rfl⟩
  have hstart : w.started = true := by simpa using hs
  rw [hstart, if_pos rfl] at hn
  simp only [hn]
  by_cases htop : w.top < seq
  · have e : ∃ bits, w.accept seq = (w.advance seq bits, .new) := by
      rw [SeqWindow.accept, if_neg hs, if_pos htop]
      split <;> exact ⟨_, rfl⟩
    obtain ⟨bits, e⟩ := e
    rw [e] at hnew ⊢
    rw [if_pos htop]
    exact ⟨rfl, hnew rfl, rfl⟩
  rw [if_neg htop]
  by_cases hlate : w.width ≤ w.top - seq
  · rw [SeqWindow.accept, if_neg hs, if_neg htop, if_pos hlate, if_pos hlate]
    exact ⟨rfl, h⟩
  rw [if_neg hlate]
  have hmark := h.seen.marked hstart seq (by omega) (by omega)
  by_cases hdup : seq ∈ r.taken
  · rw [SeqWindow.accept, if_neg hs, if_neg htop, if_neg hlate, if_pos (hmark.mpr hdup), if_pos hdup]
    exact ⟨rfl, h⟩
  have e : w.accept seq = ({ w with bits := setRing w.width w.bits seq }, .new) := by
    rw [SeqWindow.accept, if_neg hs, if_neg htop, if_neg hlate, if_neg (hdup ∘ hmark.mp)]
  rw [e] at hnew ⊢
  rw [if_neg hdup]
  exact ⟨rfl, hnew rfl, by simp [hstart]⟩

/-- What the reference took stays taken, and a new seq is added. -/
lemma Reference.taken_accept (width : Nat) (r : Reference) (seq : Nat) :
    (r.accept width seq).1.taken =
      if (r.accept width seq).2 = .new then seq :: r.taken else r.taken := by
  unfold Reference.accept
  repeat' split
  all_goals first | rfl | contradiction

lemma newSeqs_cons (seq : Nat) (seqs : List Nat) (v : WindowVerdict) (vs : List WindowVerdict) :
    newSeqs (seq :: seqs) (v :: vs) =
      if v = .new then seq :: newSeqs seqs vs else newSeqs seqs vs := by
  rw [newSeqs, zip_cons_cons, filter_cons]
  split
  next h => rw [if_pos (by simpa using h)]; rfl
  next h => rw [if_neg (by simpa using h)]; rfl

lemma accept_width (w : SeqWindow) (seq : Nat) : (w.accept seq).1.width = w.width := by
  unfold SeqWindow.accept
  repeat' split
  all_goals rfl

/-- **A whole run**: the verdicts are the reference's, and the new ones repeat none taken. -/
lemma Follows.run {w : SeqWords} {r : Reference} (h : Follows w.window r) (seqs : List Nat) :
    verdicts SeqWords.accept w seqs = verdicts (Reference.accept (w.words * 64)) r seqs ∧
      (newSeqs seqs (verdicts SeqWords.accept w seqs)).Nodup ∧
      ∀ x ∈ newSeqs seqs (verdicts SeqWords.accept w seqs), x ∉ r.taken := by
  induction seqs generalizing w r with
  | nil => exact ⟨rfl, nodup_nil, by simp [newSeqs, verdicts]⟩
  | cons seq seqs ih =>
    obtain ⟨hstate, hverdict⟩ := Prod.ext_iff.mp (w.accept_window seq)
    dsimp only at hstate hverdict
    obtain ⟨hv, hnext⟩ := h.accept seq
    rw [← hstate] at hnext
    rw [← hverdict] at hv
    have hwidth : (w.accept seq).1.words * 64 = w.words * 64 := by
      have := accept_width w.window seq
      rw [← hstate] at this
      exact this
    obtain ⟨hrest, hnodup, hout⟩ := ih hnext
    rw [hwidth] at hrest
    have htaken : (r.accept w.window.width seq).1.taken = _ := r.taken_accept _ seq
    rw [← hv] at htaken
    refine ⟨by rw [verdicts, verdicts, hv, hrest]; rfl, ?_⟩
    rw [verdicts, newSeqs_cons]
    by_cases hnew : (w.accept seq).2 = .new
    · rw [if_pos hnew] at htaken ⊢
      have hfresh := (h.seen.accept_new (hverdict ▸ hnew)).1
      have hnot : ∀ x ∈ newSeqs seqs (verdicts SeqWords.accept (w.accept seq).1 seqs),
          x ≠ seq ∧ x ∉ r.taken := by
        intro x hx
        have := hout x hx
        rw [htaken, mem_cons, not_or] at this
        exact this
      refine ⟨nodup_cons.mpr ⟨fun hm => (hnot seq hm).1 rfl, hnodup⟩, fun x hx => ?_⟩
      rcases mem_cons.mp hx with rfl | hx
      · exact hfresh
      · exact (hnot x hx).2
    · rw [if_neg hnew] at htaken ⊢
      rw [htaken] at hout
      exact ⟨hnodup, hout⟩

/-- **The dedup window is the reference**: on every sequence of seqs each verdict of the window is
that of the reference, and no seq is taken as new twice. -/
theorem seq_window_reference {words : Nat} {w : SeqWords} (h : SeqWords.init words = some w)
    (seqs : List Nat) :
    verdicts SeqWords.accept w seqs = verdicts (Reference.accept (words * 64)) ⟨none, []⟩ seqs ∧
      (newSeqs seqs (verdicts SeqWords.accept w seqs)).Nodup := by
  unfold SeqWords.init at h
  split at h
  · cases h
    have hstart : Follows (SeqWords.window ⟨0, false, words, fun _ => 0, ‹_›⟩) ⟨none, []⟩ := by
      refine ⟨⟨fun _ => ⟨rfl, fun j => congrFun ringBits_zero j⟩, ?_, ?_⟩, rfl⟩
      · exact fun hs => by cases hs
      · exact fun hs => by cases hs
    obtain ⟨hverdicts, hnodup, -⟩ := hstart.run seqs
    exact ⟨hverdicts, hnodup⟩
  · cases h

/-- The smallest window, over seqs out of order, a jump and a late one. -/
theorem seq_window_reference_smallest :
    ∃ w, SeqWords.init 16 = some w ∧
      verdicts SeqWords.accept w [5, 3, 5, 2000, 3, 977] =
        verdicts (Reference.accept (16 * 64)) ⟨none, []⟩ [5, 3, 5, 2000, 3, 977] ∧
      verdicts (Reference.accept (16 * 64)) ⟨none, []⟩ [5, 3, 5, 2000, 3, 977] =
        [.new, .new, .duplicate, .new, .late, .new] :=
  ⟨_, rfl, (seq_window_reference rfl [5, 3, 5, 2000, 3, 977]).1, by decide⟩

end Rendr.Wire
