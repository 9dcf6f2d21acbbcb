import Mathlib.Tactic
import Rendr.Lib.Run
import Rendr.Lib.Search

/-!
# Span lists

The byte ranges a sender keeps: the retransmission queue and each lane's in-flight list are lists
of spans, ascending, non-empty and coalesced. A `SpanList` carries that as a field, so every
operation returns one again.

`add` follows the source's cases (append behind the last span, grow the last span, else a binary
search and a merge of every span the new one overlaps or touches). What a caller needs to know is
which offsets the list covers:

* `mem_add`: `add` covers the old offsets and `[off, off + n)`;
* `mem_trimBelow`: `trimBelow x` keeps the offsets from `x` on;
* `mem_takeFront`: `takeFront n` removes the first `n` offsets of the first span.
-/

namespace Rendr

open List

/-- The offsets `[off, off + n)`. -/
structure Span where
  off : Nat
  n : Nat
  deriving DecidableEq, Repr

open Span

namespace Span

def endOff (sp : Span) : Nat := sp.off + sp.n

end Span

/-- Spans at `lo` or above, each non-empty and neither overlapping nor touching the one before. -/
def SpansFrom : Nat → List Span → Prop
  | _, [] => True
  | lo, sp :: t => lo ≤ sp.off ∧ 0 < sp.n ∧ SpansFrom (sp.endOff + 1) t

/-- Where a span that follows `l` may start. -/
def nextFrom : Nat → List Span → Nat
  | lo, [] => lo
  | _, sp :: t => nextFrom (sp.endOff + 1) t

/-- The offset `x` lies in one of the spans. -/
def Covers (l : List Span) (x : Nat) : Prop := ∃ sp ∈ l, sp.off ≤ x ∧ x < sp.endOff

instance (l : List Span) (x : Nat) : Decidable (Covers l x) :=
  inferInstanceAs (Decidable (∃ sp ∈ l, sp.off ≤ x ∧ x < sp.endOff))

@[simp] lemma covers_nil (x : Nat) : ¬ Covers [] x := by simp [Covers]

@[simp] lemma covers_cons (sp : Span) (l : List Span) (x : Nat) :
    Covers (sp :: l) x ↔ (sp.off ≤ x ∧ x < sp.endOff) ∨ Covers l x := by
  simp [Covers]

@[simp] lemma covers_append (l m : List Span) (x : Nat) :
    Covers (l ++ m) x ↔ Covers l x ∨ Covers m x := by
  simp [Covers, or_and_right, exists_or]

variable {lo : Nat}

lemma spansFrom_append {l m : List Span} :
    SpansFrom lo (l ++ m) ↔ SpansFrom lo l ∧ SpansFrom (nextFrom lo l) m := by
  induction l generalizing lo with
  | nil => simp [SpansFrom, nextFrom]
  | cons sp t ih =>
    rw [cons_append, SpansFrom, SpansFrom, nextFrom, ih]
    exact ⟨fun ⟨h1, h2, h3, h4⟩ => ⟨⟨h1, h2, h3⟩, h4⟩, fun ⟨⟨h1, h2, h3⟩, h4⟩ => ⟨h1, h2, h3, h4⟩⟩

variable {l : List Span}

lemma SpansFrom.mono {lo lo' : Nat} (h : SpansFrom lo l) (hle : lo' ≤ lo) : SpansFrom lo' l := by
  cases l with
  | nil => trivial
  | cons sp t => exact ⟨le_trans hle h.1, h.2⟩

variable {sp : Span}

lemma SpansFrom.off_le (h : SpansFrom lo l) (hsp : sp ∈ l) : lo ≤ sp.off ∧ 0 < sp.n := by
  induction l generalizing lo with
  | nil => cases hsp
  | cons a t ih =>
    rcases mem_cons.mp hsp with rfl | hsp
    · exact ⟨h.1, h.2.1⟩
    have := ih h.2.2 hsp
    have := h.1
    unfold endOff at *
    omega

lemma SpansFrom.covers_le {lo x : Nat} (h : SpansFrom lo l) (hx : Covers l x) : lo ≤ x := by
  obtain ⟨sp, hsp, h1, _⟩ := hx
  exact le_trans (h.off_le hsp).1 h1

lemma SpansFrom.le_nextFrom (h : SpansFrom lo l) : lo ≤ nextFrom lo l := by
  induction l generalizing lo with
  | nil => exact Nat.le_refl lo
  | cons sp t ih =>
    have h1 := ih h.2.2
    have h2 := h.1
    rw [nextFrom]
    unfold endOff at *
    omega

/-- Every span of the list ends below where the next may start. -/
lemma SpansFrom.endOff_lt (h : SpansFrom lo l) (hsp : sp ∈ l) : sp.endOff < nextFrom lo l := by
  induction l generalizing lo with
  | nil => cases hsp
  | cons a t ih =>
    rcases mem_cons.mp hsp with rfl | hsp
    · exact h.2.2.le_nextFrom
    · exact ih h.2.2 hsp

lemma nextFrom_append (lo : Nat) (l : List Span) (sp : Span) :
    nextFrom lo (l ++ [sp]) = sp.endOff + 1 := by
  induction l generalizing lo with
  | nil => rfl
  | cons a t ih => exact ih _

lemma nextFrom_le {lo b : Nat} (hlo : lo ≤ b) (h : ∀ sp ∈ l, sp.endOff < b) :
    nextFrom lo l ≤ b := by
  induction l generalizing lo with
  | nil => exact hlo
  | cons a t ih =>
    exact ih (h a (mem_cons_self ..)) fun sp hsp => h sp (mem_cons_of_mem _ hsp)

/-- In a span list the spans that end below `off` come first. -/
lemma SpansFrom.pairwise (h : SpansFrom lo l) : l.Pairwise fun a b => a.endOff < b.off := by
  induction l generalizing lo with
  | nil => exact List.Pairwise.nil
  | cons sp t ih =>
    refine pairwise_cons.mpr ⟨fun b hb => ?_, ih h.2.2⟩
    exact (h.2.2.off_le hb).1

/-! ### `add` -/

/-- `add` on the plain list. -/
def addSpan (s : List Span) (off n : Nat) : List Span :=
  if n = 0 then s
  else
    match s.getLast? with
    | none => [⟨off, n⟩]
    | some last =>
      if last.endOff < off then s ++ [⟨off, n⟩]
      else if last.off ≤ off then
        if last.endOff < off + n then s.dropLast ++ [⟨last.off, off + n - last.off⟩] else s
      else
        -- the first span ending at or after `off` (touching counts), then every span that starts
        -- at or before the new end
        let i := search (fun sp => decide (sp.endOff < off)) s
        let m := (s.drop i).takeWhile fun sp => decide (sp.off ≤ off + n)
        match m.head?, m.getLast? with
        | some a, some z =>
          s.take i ++
            ⟨min off a.off, max (off + n) z.endOff - min off a.off⟩ :: (s.drop i).drop m.length
        | _, _ => s.take i ++ ⟨off, n⟩ :: s.drop i

/-- A span between what ends before it and what starts after it. -/
private lemma spansFrom_insert {a d : List Span} (ha : SpansFrom lo a) (hn : 0 < sp.n)
    (hlo : lo ≤ sp.off) (hend : ∀ x ∈ a, x.endOff < sp.off) (hd : SpansFrom (sp.endOff + 1) d) :
    SpansFrom lo (a ++ sp :: d) := by
  refine spansFrom_append.mpr ⟨ha, ?_, hn, hd⟩
  exact nextFrom_le hlo hend

/-- The spans of a list that start after `e`, when the first of them does. -/
private lemma SpansFrom.from_head {lo e : Nat} {d : List Span} (h : SpansFrom lo d)
    (hd : ∀ sp ∈ d.head?, e < sp.off) : SpansFrom (e + 1) d := by
  cases d with
  | nil => trivial
  | cons a t => exact ⟨hd a rfl, h.2⟩

/-- The merge step of `add`: the spans `m` that the new one overlaps or touches become one. -/
private lemma merge_spec {lo off n : Nat} {m : List Span} {a z : Span} (hm : SpansFrom lo m)
    (ha : m.head? = some a) (hz : m.getLast? = some z)
    (hlow : ∀ sp ∈ m, off ≤ sp.endOff) (hhigh : ∀ sp ∈ m, sp.off ≤ off + n) (x : Nat) :
    (min off a.off ≤ x ∧ x < max (off + n) z.endOff) ↔
      Covers m x ∨ (off ≤ x ∧ x < off + n) := by
  have ham : a ∈ m := mem_of_mem_head? ha
  have hzm : z ∈ m := mem_of_mem_getLast? hz
  have ha1 := hlow a ham
  have hz1 := hhigh z hzm
  -- `a` starts and `z` ends the spans of `m`
  have hbound : ∀ sp ∈ m, a.off ≤ sp.off ∧ sp.endOff ≤ z.endOff := by
    intro sp hsp
    refine ⟨?_, ?_⟩
    · obtain ⟨t, rfl⟩ : ∃ t, m = a :: t := by
        cases m with
        | nil => cases ha
        | cons b t => exact ⟨t, by cases ha; rfl⟩
      rcases mem_cons.mp hsp with rfl | hsp
      · exact le_rfl
      · have := (hm.2.2.off_le hsp).1
        unfold endOff at this
        omega
    obtain ⟨t, rfl⟩ := getLast?_eq_some_iff.mp hz
    rcases mem_append.mp hsp with hsp | hsp
    · have h1 := (pairwise_append.mp hm.pairwise).2.2 sp hsp z (mem_singleton.mpr rfl)
      unfold endOff at *
      omega
    · rw [mem_singleton.mp hsp]
  constructor
  · rintro ⟨h1, h2⟩
    by_cases hlo : x < off
    · exact .inl ⟨a, ham, by omega, by omega⟩
    · by_cases hhi : x < off + n
      · exact .inr ⟨by omega, hhi⟩
      · exact .inl ⟨z, hzm, by omega, by omega⟩
  rintro (⟨sp, hsp, h1, h2⟩ | ⟨h1, h2⟩)
  · have := hbound sp hsp
    omega
  · omega

/-- The general case of `add`, with the list split at the search's result and behind the spans
that are merged. -/
private lemma insertSpan_spec {off n : Nat} {pre m d : List Span} (hn : 0 < n)
    (h : SpansFrom 0 (pre ++ (m ++ d))) (hlow : ∀ sp ∈ pre, sp.endOff < off)
    (hm1 : ∀ sp ∈ m, off ≤ sp.endOff) (hm2 : ∀ sp ∈ m, sp.off ≤ off + n)
    (hd : ∀ sp ∈ d.head?, off + n < sp.off) {r : List Span}
    (hr : r = match m.head?, m.getLast? with
      | some a, some z =>
        pre ++ ⟨min off a.off, max (off + n) z.endOff - min off a.off⟩ :: d
      | _, _ => pre ++ ⟨off, n⟩ :: (m ++ d)) :
    SpansFrom 0 r ∧
      ∀ x, Covers r x ↔ Covers (pre ++ (m ++ d)) x ∨ (off ≤ x ∧ x < off + n) := by
  obtain ⟨hpre, hrest⟩ := spansFrom_append.mp h
  obtain ⟨hmw, hdw⟩ := spansFrom_append.mp hrest
  subst hr
  cases m with
  | nil =>
    simp only [head?_nil, nil_append]
    refine ⟨spansFrom_insert hpre hn (Nat.zero_le _) hlow (hdw.from_head hd), fun x => ?_⟩
    simp only [covers_append, covers_cons]
    rw [show (⟨off, n⟩ : Span).endOff = off + n from rfl]
    tauto
  | cons a u =>
    obtain ⟨z, hz⟩ : ∃ z, (a :: u).getLast? = some z :=
      ⟨_, getLast?_eq_some_getLast (cons_ne_nil a u)⟩
    have hzm : z ∈ a :: u := mem_of_mem_getLast? hz
    have hnz := hmw.endOff_lt hzm
    rw [hz]
    simp only [head?_cons]
    have hend : (⟨min off a.off, max (off + n) z.endOff - min off a.off⟩ : Span).endOff =
        max (off + n) z.endOff := by
      show min off a.off + (max (off + n) z.endOff - min off a.off) = _
      omega
    refine ⟨spansFrom_insert hpre ?_ (Nat.zero_le _) ?_ ?_, fun x => ?_⟩
    · show 0 < max (off + n) z.endOff - min off a.off
      omega
    · intro sp hsp
      show sp.endOff < min off a.off
      have h1 := hlow sp hsp
      have h2 := hpre.endOff_lt hsp
      have h3 := hmw.1
      omega
    · -- what follows starts behind the new end and behind the last span merged
      rw [hend]
      refine hdw.from_head fun sp hsp => ?_
      have h1 := hd sp hsp
      have h2 := (hdw.off_le (mem_of_mem_head? hsp)).1
      omega
    · rw [covers_append, covers_cons, hend, merge_spec hmw rfl hz hm1 hm2 x, covers_append pre,
        covers_append (a :: u)]
      tauto

/-- A list split behind the longest prefix that passes a test. -/
private lemma split_while {α : Type} (q : α → Prop) [DecidablePred q] (l : List α) :
    l.takeWhile (fun a => decide (q a)) ++ l.dropWhile (fun a => decide (q a)) = l ∧
      (∀ a ∈ l.takeWhile fun a => decide (q a), q a) ∧
      ∀ a ∈ (l.dropWhile fun a => decide (q a)).head?, ¬ q a := by
  refine ⟨takeWhile_append_dropWhile, fun a ha => ?_, fun a ha => ?_⟩
  · have := mem_takeWhile_imp ha
    simpa using this
  · have := head?_dropWhile_not (fun a => decide (q a)) l
    rw [Option.mem_def.mp ha] at this
    simpa using this

lemma addSpan_spec {s : List Span} (off n : Nat) (h : SpansFrom 0 s) :
    SpansFrom 0 (addSpan s off n) ∧
      ∀ x, Covers (addSpan s off n) x ↔ Covers s x ∨ (off ≤ x ∧ x < off + n) := by
  unfold addSpan
  by_cases hn : n = 0
  · rw [if_pos hn]
    exact ⟨h, fun x => ⟨.inl, fun hx => hx.elim id fun hx => by omega⟩⟩
  rw [if_neg hn]
  have hn : 0 < n := Nat.pos_of_ne_zero hn
  cases hl : s.getLast? with
  | none =>
    rw [getLast?_eq_none_iff.mp hl]
    exact ⟨⟨Nat.zero_le _, hn, trivial⟩, fun x => by simp [endOff]⟩
  | some last =>
    obtain ⟨t, ht⟩ := getLast?_eq_some_iff.mp hl
    have hlast : last ∈ s := mem_of_mem_getLast? hl
    simp only
    by_cases h1 : last.endOff < off
    · -- append behind the last span
      rw [if_pos h1]
      refine ⟨spansFrom_append.mpr ⟨h, ?_, hn, trivial⟩, fun x => ?_⟩
      · rw [ht, nextFrom_append]
        exact h1
      · rw [covers_append]
        simp [endOff]
    rw [if_neg h1]
    by_cases h2 : last.off ≤ off
    · rw [if_pos h2]
      by_cases h3 : last.endOff < off + n
      · -- grow the last span
        rw [if_pos h3]
        subst ht
        have hsplit := spansFrom_append.mp h
        rw [dropLast_concat]
        refine ⟨spansFrom_append.mpr ⟨hsplit.1, hsplit.2.1, ?_, trivial⟩, fun x => ?_⟩
        · show 0 < off + n - last.off
          omega
        simp only [covers_append, covers_cons, covers_nil, or_false, endOff]
        unfold endOff at h1 h3
        by_cases hx : Covers t x
        · simp [hx]
        · simp only [hx, false_or]
          omega
      · rw [if_neg h3]
        exact ⟨h, fun x => ⟨.inl, fun hx => hx.elim id fun hx =>
          ⟨last, hlast, by omega, by omega⟩⟩⟩
    rw [if_neg h2]
    -- the general case: split at the search's result
    clear h1 h2 ht hlast hl
    have hpw : s.Pairwise fun a b =>
        decide (b.endOff < off) = true → decide (a.endOff < off) = true :=
      h.pairwise.imp fun {a b} hab hb => by
        have hb := of_decide_eq_true hb
        refine decide_eq_true ?_
        unfold endOff at *
        omega
    rw [take_search hpw, drop_search hpw]
    obtain ⟨hs, hlow, hhead⟩ := split_while (fun sp : Span => sp.endOff < off) s
    generalize s.takeWhile (fun sp => decide (sp.endOff < off)) = pre at hs hlow
    generalize s.dropWhile (fun sp => decide (sp.endOff < off)) = rest at hs hhead
    subst hs
    have hrest := (spansFrom_append.mp h).2
    have hge : ∀ sp ∈ rest, off ≤ sp.endOff := by
      cases rest with
      | nil => exact fun sp hsp => nomatch hsp
      | cons b u =>
        intro sp hsp
        have hb := hhead b rfl
        rcases mem_cons.mp hsp with rfl | hsp
        · exact Nat.le_of_not_lt hb
        · have := (hrest.2.2.off_le hsp).1
          unfold endOff at *
          omega
    obtain ⟨hr, hm, hd⟩ := split_while (fun sp : Span => sp.off ≤ off + n) rest
    have hdrop : rest.drop (rest.takeWhile fun sp => decide (sp.off ≤ off + n)).length =
        rest.dropWhile fun sp => decide (sp.off ≤ off + n) := by
      calc _ = (rest.takeWhile (fun sp => decide (sp.off ≤ off + n)) ++
            rest.dropWhile fun sp => decide (sp.off ≤ off + n)).drop _ := by rw [hr]
        _ = _ := drop_left
    rw [hdrop]
    generalize rest.takeWhile (fun sp => decide (sp.off ≤ off + n)) = m at hr hm
    generalize rest.dropWhile (fun sp => decide (sp.off ≤ off + n)) = d at hr hd
    subst hr
    exact insertSpan_spec hn h hlow (fun sp hsp => hge sp (mem_append_left _ hsp)) hm
      (fun sp hsp => Nat.lt_of_not_le (hd sp hsp)) rfl

/-! ### The list with its invariant -/

/-- A list of spans, ascending, non-empty and coalesced. -/
structure SpanList where
  s : List Span
  wf : SpansFrom 0 s

namespace SpanList

instance : Membership Nat SpanList := ⟨fun l x => Covers l.s x⟩

instance (l : SpanList) (x : Nat) : Decidable (x ∈ l) := inferInstanceAs (Decidable (Covers l.s x))

instance : DecidableEq SpanList := fun a b =>
  decidable_of_iff (a.s = b.s) ⟨fun h => by cases a; cases b; cases h; rfl, fun h => by rw [h]⟩

/-- The empty list, which `reset` leaves. -/
def empty : SpanList := ⟨[], trivial⟩

instance : Inhabited SpanList := ⟨empty⟩

variable {x : Nat} {l : SpanList}

lemma mem_def : x ∈ l ↔ Covers l.s x := Iff.rfl

@[simp] lemma not_mem_empty (x : Nat) : x ∉ empty := covers_nil x

/-- Insert `[off, off + n)`, merging it with every span it overlaps or touches. -/
def add (l : SpanList) (off n : Nat) : SpanList :=
  ⟨addSpan l.s off n, (addSpan_spec off n l.wf).1⟩

@[simp] lemma mem_add {off n x : Nat} :
    x ∈ l.add off n ↔ x ∈ l ∨ (off ≤ x ∧ x < off + n) :=
  (addSpan_spec off n l.wf).2 x

/-- Remove every offset below `x`. -/
def trimBelow (l : SpanList) (x : Nat) : SpanList where
  s :=
    match l.s.dropWhile fun sp => decide (sp.endOff ≤ x) with
    | [] => []
    | sp :: t => if sp.off < x then ⟨x, sp.n - (x - sp.off)⟩ :: t else sp :: t
  wf := by
    obtain ⟨hs, -, hd⟩ := split_while (fun sp : Span => sp.endOff ≤ x) l.s
    have hw := l.wf
    rw [← hs] at hw
    have hw := (spansFrom_append.mp hw).2
    generalize l.s.dropWhile (fun sp => decide (sp.endOff ≤ x)) = r at hd hw
    cases r with
    | nil => trivial
    | cons sp t =>
      have h1 := hd sp rfl
      obtain ⟨h2, h3, h4⟩ := hw
      refine guard ⟨Nat.zero_le _, h3, h4⟩ fun _ => ?_
      refine ⟨Nat.zero_le _, ?_, ?_⟩
      · show 0 < sp.n - (x - sp.off)
        unfold endOff at h1
        omega
      refine h4.mono ?_
      show x + (sp.n - (x - sp.off)) + 1 ≤ _
      unfold endOff at *
      omega

@[simp] lemma mem_trimBelow {x y : Nat} :
    y ∈ l.trimBelow x ↔ y ∈ l ∧ x ≤ y := by
  obtain ⟨hs, hlow, hd⟩ := split_while (fun sp : Span => sp.endOff ≤ x) l.s
  have hw := l.wf
  have hmem : y ∈ l ↔ Covers l.s y := Iff.rfl
  rw [← hs] at hw hmem
  have hw := (spansFrom_append.mp hw).2
  rw [hmem, covers_append]
  show Covers (match l.s.dropWhile fun sp => decide (sp.endOff ≤ x) with
    | [] => []
    | sp :: t => if sp.off < x then ⟨x, sp.n - (x - sp.off)⟩ :: t else sp :: t) y ↔ _
  generalize l.s.takeWhile (fun sp => decide (sp.endOff ≤ x)) = pre at *
  generalize l.s.dropWhile (fun sp => decide (sp.endOff ≤ x)) = r at *
  clear hs hmem
  have hpre : Covers pre y → ¬ x ≤ y := fun ⟨sp, hsp, _, h2⟩ => by
    have := hlow sp hsp
    omega
  cases r with
  | nil =>
    simp only [covers_nil, or_false, false_iff]
    exact fun h => hpre h.1 h.2
  | cons sp t =>
    have h1 := hd sp rfl
    have ht : Covers t y → x ≤ y := fun h => by
      have := hw.2.2.covers_le h
      omega
    have hxy : (Covers pre y ∨ Covers (sp :: t) y) ∧ x ≤ y ↔ Covers (sp :: t) y ∧ x ≤ y :=
      ⟨fun ⟨h, hle⟩ => ⟨h.resolve_left fun h => hpre h hle, hle⟩, fun ⟨h, hle⟩ => ⟨.inr h, hle⟩⟩
    rw [hxy, covers_cons]
    simp only
    unfold endOff at *
    by_cases hc : Covers t y
    · split <;> simp [hc, ht hc]
    · split <;> simp only [covers_cons, hc, or_false, endOff] <;> omega

/-- Remove the first `n` offsets of the first span. -/
def takeFront (l : SpanList) (n : Nat) : SpanList where
  s :=
    match l.s with
    | [] => []
    | sp :: t => if sp.n - n = 0 then t else ⟨sp.off + n, sp.n - n⟩ :: t
  wf := by
    have hw := l.wf
    generalize l.s = s at hw
    cases s with
    | nil => trivial
    | cons sp t =>
      obtain ⟨-, h2, h3⟩ := hw
      simp only
      split
      · exact h3.mono (Nat.zero_le _)
      · refine ⟨Nat.zero_le _, Nat.pos_of_ne_zero (by assumption), h3.mono ?_⟩
        show sp.off + n + (sp.n - n) + 1 ≤ sp.off + sp.n + 1
        omega

variable {t : List Span}

/-- The first span holds the lowest offsets. -/
lemma head_le (h : l.s = sp :: t) (hx : x ∈ l) : sp.off ≤ x := by
  have hw := l.wf
  rw [mem_def, h, covers_cons] at hx
  rw [h] at hw
  rcases hx with hx | hx
  · exact hx.1
  · have := hw.2.2.covers_le hx
    unfold endOff at this
    omega

lemma mem_takeFront (h : l.s = sp :: t) {n : Nat} (hn : n ≤ sp.n) :
    x ∈ l.takeFront n ↔ x ∈ l ∧ sp.off + n ≤ x := by
  have hw := l.wf
  rw [h] at hw
  have hmem : x ∈ l ↔ Covers l.s x := Iff.rfl
  rw [hmem, h, covers_cons]
  show Covers (match l.s with
    | [] => []
    | sp :: t => if sp.n - n = 0 then t else ⟨sp.off + n, sp.n - n⟩ :: t) x ↔ _
  rw [h]
  show Covers (if sp.n - n = 0 then t else ⟨sp.off + n, sp.n - n⟩ :: t) x ↔ _
  have ht : Covers t x → sp.off + n ≤ x := fun hx => by
    have := hw.2.2.covers_le hx
    unfold endOff at this
    omega
  unfold endOff
  by_cases hc : Covers t x
  · split <;> simp [hc, ht hc]
  split
  · simp only [hc, or_false, false_iff]
    omega
  · simp only [covers_cons, hc, or_false, endOff]
    omega

lemma mem_head (h : l.s = sp :: t) (h1 : sp.off ≤ x) (h2 : x < sp.endOff) :
    x ∈ l := by
  rw [mem_def, h, covers_cons]
  exact .inl ⟨h1, h2⟩

/-! ### The reference set -/

/-- The bytes covered. -/
def bytes (l : SpanList) : Nat := (l.s.map n).sum

/-- An operation on a span list. -/
inductive Op where
  | add (off n : Nat)
  | trimBelow (x : Nat)
  | takeFront (n : Nat)

/-- What the callers keep: an end that does not wrap, and a first span that has the bytes taken. -/
def Op.Ok (l : SpanList) : Op → Prop
  | .add off n => off + n < 2 ^ 64
  | .trimBelow _ => True
  | .takeFront n => ∃ sp ∈ l.s.head?, n ≤ sp.n

def step (l : SpanList) : Op → SpanList
  | .add off n => l.add off n
  | .trimBelow x => l.trimBelow x
  | .takeFront n => l.takeFront n

/-- **The reference**: union, removal below `x`, removal of the `n` least offsets. -/
def refStep (S : Finset Nat) : Op → Finset Nat
  | .add off n => S ∪ Finset.Ico off (off + n)
  | .trimBelow x => S.filter (x ≤ ·)
  | .takeFront n => S.filter fun x => n ≤ (S.filter (· < x)).card

/-- The list covers the set, and no end of a span wraps. -/
structure Exact (l : SpanList) (S : Finset Nat) : Prop where
  mem : ∀ x, x ∈ S ↔ x ∈ l
  bound : ∀ x ∈ S, x + 1 < 2 ^ 64

variable {S : Finset Nat}

/-- The first span is the lowest part of the set: an offset has `n` of them below it iff it lies
at `n` or more from the start. -/
lemma Exact.le_card (h : Exact l S) (hl : l.s = sp :: t) {n : Nat}
    (hn : n ≤ sp.n) (hx : x ∈ S) : n ≤ (S.filter (· < x)).card ↔ sp.off + n ≤ x := by
  constructor
  · intro hle
    by_contra hlt
    -- all of them lie between the start and `x`
    have hsub : S.filter (· < x) ⊆ Finset.Ico sp.off x := fun y hy => by
      obtain ⟨hy, hyx⟩ := Finset.mem_filter.mp hy
      exact Finset.mem_Ico.mpr ⟨head_le hl ((h.mem y).mp hy), hyx⟩
    have hcard := Finset.card_le_card hsub
    have := head_le hl ((h.mem x).mp hx)
    rw [Nat.card_Ico] at hcard
    omega
  intro hle
  have hsub : Finset.Ico sp.off (sp.off + n) ⊆ S.filter (· < x) := fun y hy => by
    obtain ⟨h1, h2⟩ := Finset.mem_Ico.mp hy
    have hy := mem_head hl h1 (show y < sp.off + sp.n by omega)
    exact Finset.mem_filter.mpr ⟨(h.mem y).mpr hy, by omega⟩
  have hcard := Finset.card_le_card hsub
  rw [Nat.card_Ico] at hcard
  omega

/-- **One operation** follows the reference. -/
lemma Exact.step {op : Op} (h : Exact l S) (hok : op.Ok l) :
    Exact (l.step op) (refStep S op) := by
  cases op with
  | add off n =>
    refine ⟨fun x => ?_, fun x hx => ?_⟩
    · show x ∈ S ∪ _ ↔ x ∈ l.add off n
      rw [Finset.mem_union, Finset.mem_Ico, mem_add, h.mem]
    have hoff : off + n < 2 ^ 64 := hok
    rcases Finset.mem_union.mp hx with hx | hx
    · exact h.bound x hx
    · have := (Finset.mem_Ico.mp hx).2
      omega
  | trimBelow y =>
    refine ⟨fun x => ?_, fun x hx => h.bound x (Finset.mem_filter.mp hx).1⟩
    show x ∈ S.filter _ ↔ x ∈ l.trimBelow y
    rw [Finset.mem_filter, mem_trimBelow, h.mem]
  | takeFront n =>
    refine ⟨fun x => ?_, fun x hx => h.bound x (Finset.mem_filter.mp hx).1⟩
    obtain ⟨sp, hsp, hn⟩ := hok
    obtain ⟨t, hl⟩ := head?_eq_some_iff.mp hsp
    show x ∈ S.filter _ ↔ x ∈ l.takeFront n
    rw [Finset.mem_filter, mem_takeFront hl hn, ← h.mem]
    exact and_congr_right (h.le_card hl hn)

/-- The sizes of the spans add up to the size of the set they cover. -/
lemma sum_eq_card {l : List Span} (hl : SpansFrom lo l)
    (h : ∀ x, x ∈ S ↔ Covers l x) : (l.map n).sum = S.card := by
  induction l generalizing lo S with
  | nil =>
    rw [Finset.eq_empty_of_forall_notMem fun x hx => covers_nil x ((h x).mp hx)]
    rfl
  | cons sp t ih =>
    -- the first span, and the rest behind it
    have hrest : ∀ x, x ∈ S.filter (sp.endOff ≤ ·) ↔ Covers t x := by
      intro x
      rw [Finset.mem_filter, h, covers_cons]
      refine ⟨fun hx => hx.1.resolve_left fun hc => by omega, fun hx => ⟨.inr hx, ?_⟩⟩
      have := hl.2.2.covers_le hx
      omega
    have hfirst : S.filter (¬ sp.endOff ≤ ·) = Finset.Ico sp.off sp.endOff := by
      ext x
      rw [Finset.mem_filter, h, covers_cons, Finset.mem_Ico]
      refine ⟨fun hx => hx.1.resolve_right fun hc => ?_, fun hx => ⟨.inl hx, by omega⟩⟩
      have := hl.2.2.covers_le hc
      omega
    have hcard := Finset.card_filter_add_card_filter_not (s := S) (sp.endOff ≤ ·)
    rw [hfirst, Nat.card_Ico, endOff] at hcard
    rw [map_cons, sum_cons, ih hl.2.2 hrest]
    unfold endOff
    omega

/-- **Span lists are exact sets**: after every sequence of operations the spans ascend with gaps,
none is empty, no end wraps, and they cover exactly the reference set, `bytes` of them. -/
theorem spans_exact (ops : List Op) (hok : Along step Op.Ok empty ops) :
    let l := runFrom step empty ops
    let S := runFrom refStep ∅ ops
    l.s.Pairwise (fun a b => a.endOff < b.off) ∧ (∀ sp ∈ l.s, 0 < sp.n ∧ sp.endOff < 2 ^ 64) ∧
      (∀ x, x ∈ l ↔ x ∈ S) ∧ l.bytes = S.card := by
  have hrun : ∀ (ops : List Op) (l : SpanList) (S : Finset Nat), Exact l S → Along step Op.Ok l ops →
      Exact (runFrom step l ops) (runFrom refStep S ops) := by
    intro ops
    induction ops with
    | nil => exact fun _ _ h _ => h
    | cons op ops ih => exact fun l S h hok => ih _ _ (h.step hok.1) hok.2
  have h := hrun ops empty ∅ ⟨fun x => by simp, by simp⟩ hok
  refine ⟨SpansFrom.pairwise (runFrom step empty ops).wf, fun sp hsp => ?_, fun x => (h.mem x).symm,
    sum_eq_card (runFrom step empty ops).wf h.mem⟩
  have hpos := ((runFrom step empty ops).wf.off_le hsp).2
  -- the last byte of the span is covered
  have hlast := h.bound (sp.endOff - 1) ((h.mem _).mpr ⟨sp, hsp, by unfold endOff; omega⟩)
  exact ⟨hpos, by unfold endOff at *; omega⟩

/-- Two spans joined by a third, cut at both operations. -/
theorem spans_exact_joined :
    let ops := [.add 10 5, .add 0 4, .add 3 7, .takeFront 2, .trimBelow 5]
    Along step Op.Ok empty ops ∧ (runFrom step empty ops).s = [⟨5, 10⟩] ∧
      (runFrom step empty ops).bytes = (runFrom refStep ∅ ops).card := by
  have hok : Along step Op.Ok empty [.add 10 5, .add 0 4, .add 3 7, .takeFront 2, .trimBelow 5] :=
    ⟨by simp [Op.Ok], by simp [Op.Ok], by simp [Op.Ok], ⟨⟨0, 15⟩, by decide, by decide⟩, trivial,
      trivial⟩
  exact ⟨hok, by decide, (spans_exact _ hok).2.2.2⟩

end SpanList

end Rendr
