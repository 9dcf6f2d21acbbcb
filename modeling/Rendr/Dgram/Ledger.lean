import Mathlib.Data.Finset.Card
import Mathlib.Data.Finset.Range
import Rendr.Dgram.Moves
import Rendr.Dgram.RedoRing

/-!
# The send-side ledger

Every datagram `WriteTo` accepted is in one place: it is sent, dropped under one of the four
counters, queued with no placement that may have left, or on the redo list. `Ledger` is the
invariant behind that identity. It says of each seq how many of its placements were not handed
back, and ties to that number the Sent counter, the placement count of a race datagram's cell, the
entries of the placement records and the redo list; and it says who refers to each cell.

`Ledger p s k` allows for `k` datagrams that are in nobody's books, in the middle of an operation.
Each operation of the send path has one lemma here.
-/

namespace Rendr.Dgram

open Function List Snd Pool

namespace Snd

variable {p : Params} {now : Int} {s s' : Snd} {k : Nat}

/-! ### Counting over lists -/

/-- Where a predicate changes only on the elements `Q` picks, and there from true to false. -/
lemma countP_split {α : Type} {P P' Q : α → Bool} (l : List α)
    (hother : ∀ x ∈ l, Q x = false → P' x = P x)
    (hpick : ∀ x ∈ l, Q x = true → P x = true ∧ P' x = false) :
    l.countP P' + l.countP Q = l.countP P := by
  induction l with
  | nil => rfl
  | cons a l ih =>
    have ih' := ih (fun x hx => hother x (mem_cons_of_mem _ hx))
      (fun x hx => hpick x (mem_cons_of_mem _ hx))
    rcases hQ : Q a with _ | _
    · have hsame := hother a (mem_cons_self ..) hQ
      rw [countP_cons, countP_cons, countP_cons, hQ, hsame]
      simp only [Bool.false_eq_true, if_false]
      omega
    obtain ⟨hP, hP'⟩ := hpick a (mem_cons_self ..) hQ
    rw [countP_cons, countP_cons, countP_cons, hQ, hP, hP']
    simp only [Bool.false_eq_true, if_false, if_true]
    omega

/-- The entries of all placement records that `P` picks. -/
def laneCount (P : Entry → Bool) (ls : List Lane) : Nat :=
  (ls.map fun l => l.recs.countP P).sum

variable (P : Entry → Bool) {l : Lane}

/-- Replacing one lane's record. -/
lemma laneCount_set {ls : List Lane} {i : Nat} (l' : Lane) (hl : ls[i]? = some l) :
    laneCount P (ls.set i l') + l.recs.countP P = laneCount P ls + l'.recs.countP P := by
  induction ls generalizing i with
  | nil => simp at hl
  | cons a ls ih =>
    cases i with
    | zero =>
      simp only [getElem?_cons_zero, Option.some.injEq] at hl
      subst hl
      simp only [laneCount, set_cons_zero, map_cons, sum_cons]
      omega
    | succ i =>
      have := ih (by simpa using hl)
      simp only [laneCount, set_cons_succ, map_cons, sum_cons] at this ⊢
      omega

/-- It depends on the records only. -/
lemma laneCount_congr {ls ls' : List Lane} (h : ls'.map Lane.recs = ls.map Lane.recs) :
    laneCount P ls' = laneCount P ls := by
  have hrecs : ∀ ls : List Lane, laneCount P ls = ((ls.map Lane.recs).map (·.countP P)).sum :=
    fun ls => by rw [laneCount, map_map]; rfl
  rw [hrecs, hrecs, h]

lemma countP_le_laneCount {ls : List Lane} {i : Nat} (hl : ls[i]? = some l) :
    l.recs.countP P ≤ laneCount P ls := by
  have h := laneCount_set P { l with recs := [] } hl
  simp only [countP_nil] at h
  omega

/-! ### Placements of a seq -/

/-- One more frame is placed. -/
lemma out_placed (x : Nat) (i : Nat) (f : Frame) (hf : s'.frames = (i, f) :: s.frames)
    (hb : s'.backs = s.backs) : s'.out x = s.out x + if f.seq = x then 1 else 0 := by
  unfold out
  rw [hf, hb, countP_cons]
  by_cases hx : f.seq = x
  · simp only [hx, beq_self_eq_true, if_true]
    omega
  · simp only [hx, beq_iff_eq, if_false]
    omega

/-- One placement is handed back. -/
lemma out_back (x y : Nat) (hf : s'.frames = s.frames) (hb : s'.backs = y :: s.backs) :
    s'.out x = s.out x - if y = x then 1 else 0 := by
  unfold out
  rw [hf, hb, count_cons]
  by_cases hx : y = x
  · simp only [hx, beq_self_eq_true, if_true]
    omega
  · simp only [hx, beq_iff_eq, if_false]
    omega

/-- The seqs with a placement that may have left. -/
def sentSeqs (s : Snd) : Finset Nat := (Finset.range s.nextSeq).filter fun x => 0 < s.out x

/-! ### The invariant -/

/-- Who refers to cell `c`: its queued descriptor, record entries and a redo entry. -/
def refs (s : Snd) (c : Nat) : Nat :=
  s.tx.q.countP (·.cell == c) + laneCount (·.cell == c) s.lanes + s.redo.countP (·.cell == c)

/-- A record entry of seq `x` that its carrier may still hand back: not handed back yet and, in
race, its reference on its cell not dropped with an old dead lane's record. -/
def holds (p : Params) (x : Nat) (e : Entry) : Bool :=
  e.out && (p.mode != .race || e.cell != 0) && e.seq == x

/-- The references on cell `c`, those the running operation holds on the cells `hand` included. -/
def uses (s : Snd) (hand : List Nat) (c : Nat) : Nat := s.refs c + hand.count c

/-! A cell that a queue, a lane or the redo list names is in use. -/

variable {d : Desc}

lemma uses_tx (s : Snd) (hand : List Nat) (hd : d ∈ s.tx.q) : 0 < s.uses hand d.cell := by
  have : 0 < s.tx.q.countP (·.cell == d.cell) :=
    countP_pos_iff.mpr ⟨d, hd, beq_self_eq_true _⟩
  unfold uses refs
  omega

lemma uses_rec (s : Snd) (hand : List Nat) (hl : l ∈ s.lanes) {e : Entry}
    (he : e ∈ l.recs) : 0 < s.uses hand e.cell := by
  obtain ⟨i, hi⟩ := mem_iff_getElem?.mp hl
  have h1 : 0 < l.recs.countP (·.cell == e.cell) :=
    countP_pos_iff.mpr ⟨e, he, beq_self_eq_true _⟩
  have h2 := countP_le_laneCount (·.cell == e.cell) hi
  unfold uses refs
  omega

variable {r : Redo}

lemma uses_redo (s : Snd) (hand : List Nat) (hr : r ∈ s.redo) : 0 < s.uses hand r.cell := by
  have : 0 < s.redo.countP (·.cell == r.cell) :=
    countP_pos_iff.mpr ⟨r, hr, beq_self_eq_true _⟩
  unfold uses refs
  omega

/-- **The books of the send side**, in the middle of an operation that holds references on the
cells `hand` and has `k` accepted datagrams in nobody's books. -/
structure Ledger (p : Params) (s : Snd) (hand : List Nat) (k : Nat) : Prop where
  /-- Every accepted datagram is somewhere. -/
  total : s.ctr.sent + s.ctr.drops + s.tx.q.countP s.unplaced + s.txBig.q.length +
    s.redo.length + k = s.log.length
  big : ∀ d ∈ s.txBig.q, d.seq = 0 ∧ d.cell = 0
  txCell : ∀ d ∈ s.tx.q, d.seq = 0 ↔ d.cell = 0
  pool : s.pool.Ok (s.uses hand)
  /-- A cell belongs to the seq of whoever refers to it. -/
  ownTx : ∀ d ∈ s.tx.q, d.cell ≠ 0 → (s.pool.val d.cell).seq + 1 = d.seq
  ownRec : ∀ l ∈ s.lanes, ∀ e ∈ l.recs, e.cell ≠ 0 → (s.pool.val e.cell).seq = e.seq
  ownRedo : ∀ r ∈ s.redo, r.cell ≠ 0 → (s.pool.val r.cell).seq = r.seq
  ownInj : ∀ c c', c ≠ 0 → c' ≠ 0 → 0 < s.uses hand c → 0 < s.uses hand c' →
    (s.pool.val c).seq = (s.pool.val c').seq → c = c'
  /-- The placement count of a cell. -/
  pcOut : ∀ c, c ≠ 0 → 0 < s.uses hand c → s.pc c = s.out (s.pool.val c).seq
  pcNonneg : ∀ c, 0 ≤ s.pc c
  queued : ∀ c, c ≠ 0 → 0 < s.uses hand c →
    ((s.pool.val c).queued = true ↔ 0 < s.tx.q.countP (·.cell == c))
  txOnce : ∀ c, c ≠ 0 → s.tx.q.countP (·.cell == c) ≤ 1
  /-- A returned datagram has no placement that may have left, and waits once. -/
  redoOut : ∀ r ∈ s.redo, s.out r.seq = 0
  redoNodup : (s.redo.map Redo.seq).Nodup
  redoTx : ∀ r ∈ s.redo, ∀ d ∈ s.tx.q, d.seq ≠ r.seq + 1
  /-- A record entry is a placement that was not handed back. -/
  held : ∀ x, (laneCount (holds p x) s.lanes : Int) ≤ s.out x
  recLen : ∀ l ∈ s.lanes, l.recs.length ≤ recLen
  /-- No seq beyond the next one is in use. -/
  txSeq : ∀ d ∈ s.tx.q, d.seq ≤ s.nextSeq
  recSeq : ∀ l ∈ s.lanes, ∀ e ∈ l.recs, e.seq < s.nextSeq
  redoSeq : ∀ r ∈ s.redo, r.seq < s.nextSeq
  outSeq : ∀ x, s.nextSeq ≤ x → s.out x = 0
  sent : s.ctr.sent = s.sentSeqs.card
  /-- Selector and bond: no cells, and at most one placement of a seq is out. -/
  plain : p.mode ≠ .race → (∀ d ∈ s.tx.q, d.seq = 0) ∧
    (∀ l ∈ s.lanes, ∀ e ∈ l.recs, e.cell = 0) ∧ (∀ r ∈ s.redo, r.cell = 0) ∧
    (∀ c ∈ hand, c = 0) ∧ ∀ x, s.out x ≤ 1
  race : p.mode = .race → ∀ r ∈ s.redo, r.cell ≠ 0

namespace Ledger

variable {hand : List Nat}

/-- The books depend on the queues, the cells, the records, the counters and the history. -/
lemma same (h : Ledger p s hand k) (htx : s'.tx.q = s.tx.q) (hbig : s'.txBig.q = s.txBig.q)
    (hpool : s'.pool = s.pool) (hnext : s'.nextSeq = s.nextSeq) (hctr : s'.ctr = s.ctr)
    (hredo : s'.redo = s.redo) (hrecs : s'.lanes.map Lane.recs = s.lanes.map Lane.recs)
    (hlog : s'.log = s.log) (hframes : s'.frames = s.frames) (hbacks : s'.backs = s.backs) :
    Ledger p s' hand k := by
  have hout : s'.out = s.out := by unfold out; rw [hframes, hbacks]
  have hpc : s'.pc = s.pc := by unfold pc; rw [hpool]
  have hcount : ∀ P, laneCount P s'.lanes = laneCount P s.lanes :=
    fun P => laneCount_congr P hrecs
  have huses : s'.uses hand = s.uses hand := by
    funext c
    unfold uses refs
    rw [htx, hredo, hcount]
  have hun : s'.unplaced = s.unplaced := by unfold unplaced; rw [hpc]
  have hsent : s'.sentSeqs = s.sentSeqs := by unfold sentSeqs; rw [hnext, hout]
  -- a record of one state is a record of the other
  have hmem : ∀ {P : List Entry → Prop}, (∀ l ∈ s.lanes, P l.recs) → ∀ l ∈ s'.lanes, P l.recs := by
    intro P hall l hl
    have : l.recs ∈ s.lanes.map Lane.recs := hrecs ▸ mem_map_of_mem hl
    obtain ⟨l', hl', heq⟩ := mem_map.mp this
    exact heq ▸ hall l' hl'
  refine ⟨?_, ?_, ?_, ?_, ?_, ?_, ?_, ?_, ?_, ?_, ?_, ?_, ?_, ?_, ?_, ?_, ?_, ?_, ?_, ?_, ?_, ?_, ?_,
    ?_⟩
  · rw [hctr, htx, hbig, hredo, hlog, hun]; exact h.total
  · rw [hbig]; exact h.big
  · rw [htx]; exact h.txCell
  · rw [hpool, huses]; exact h.pool
  · rw [htx, hpool]; exact h.ownTx
  · rw [hpool]; exact hmem
      (P := fun es => ∀ e ∈ es, e.cell ≠ 0 → (s.pool.val e.cell).seq = e.seq) h.ownRec
  · rw [hredo, hpool]; exact h.ownRedo
  · rw [huses, hpool]; exact h.ownInj
  · rw [huses, hpc, hpool, hout]; exact h.pcOut
  · rw [hpc]; exact h.pcNonneg
  · rw [huses, hpool, htx]; exact h.queued
  · rw [htx]; exact h.txOnce
  · rw [hredo, hout]; exact h.redoOut
  · rw [hredo]; exact h.redoNodup
  · rw [hredo, htx]; exact h.redoTx
  · intro x; rw [hcount, hout]; exact h.held x
  · exact hmem (P := fun es => es.length ≤ Dgram.recLen) h.recLen
  · rw [htx, hnext]; exact h.txSeq
  · rw [hnext]; exact hmem (P := fun es => ∀ e ∈ es, e.seq < s.nextSeq) h.recSeq
  · rw [hredo, hnext]; exact h.redoSeq
  · rw [hnext, hout]; exact h.outSeq
  · rw [hctr, hsent]; exact h.sent
  · intro hm
    obtain ⟨h1, h2, h3, h4, h5⟩ := h.plain hm
    rw [htx, hredo, hout]
    exact ⟨h1, hmem (P := fun es => ∀ e ∈ es, e.cell = 0) h2, h3, h4, h5⟩
  · rw [hredo]; exact h.race

/-! ### A datagram leaves the queue -/

/-- A datagram is counted as a drop. -/
lemma count (h : Ledger p s hand (k + 1)) (b : Drop) : Ledger p (s.count b) hand k := by
  refine { h with total := ?_, sent := ?_ }
  · have ht := h.total
    simp only [Snd.count, Ctr.count_sent, Ctr.count_drops]
    change _ + (s.tx.q.countP s.unplaced) + _ + _ + _ = _
    omega
  · exact (Ctr.count_sent ..).trans h.sent

variable {ds : List Desc}

/-- The head of `txBig` leaves. -/
lemma popBig (h : Ledger p s hand k) (hq : s.txBig.q = d :: ds) :
    Ledger p (s.pop .big) hand (k + 1) := by
  have hd : d.cell = 0 := (h.big d (hq ▸ mem_cons_self ..)).2
  have hpop : s.pop .big = { s with txBig := { s.txBig with q := ds, pos := s.txBig.pos + 1 } } := by
    unfold pop
    rw [ring_big, hq]
    dsimp only
    rw [if_pos hd]
    rfl
  rw [hpop]
  refine { h with total := ?_, big := fun e he => h.big e (hq ▸ mem_cons_of_mem _ he) }
  have ht := h.total
  rw [hq, length_cons] at ht
  change _ + (s.tx.q.countP s.unplaced) + ds.length + _ + _ = _
  dsimp only
  omega

/-- The references on a cell while the head is queued and once it left. -/
lemma uses_tail (hand : List Nat) (hq : s.tx.q = d :: ds) (c : Nat) :
    s.uses hand c = (ds.countP (·.cell == c) + laneCount (·.cell == c) s.lanes +
      s.redo.countP (·.cell == c) + hand.count c) + if d.cell = c then 1 else 0 := by
  unfold uses refs
  rw [hq, countP_cons]
  simp only [beq_iff_eq]
  omega

/-- The head of `tx` leaves, and the cells are those of `P`. -/
lemma leave (h : Ledger p s hand k) (hq : s.tx.q = d :: ds) {P : Pool Cell} {s' : Snd}
    (hs' : s' = { s with tx := { s.tx with q := ds, pos := s.tx.pos + 1 }, pool := P })
    (hok : P.Ok (s'.uses hand)) (hpc : ∀ c, (P.val c).pc = (s.pool.val c).pc)
    (hseq : ∀ c, (P.val c).seq = (s.pool.val c).seq)
    (hqueued : ∀ c, c ≠ 0 → 0 < s'.uses hand c → ((P.val c).queued = true ↔ 0 < ds.countP (·.cell == c)))
    : Ledger p s' hand (k + if s.unplaced d then 1 else 0) := by
  have hmem : ∀ e ∈ ds, e ∈ s.tx.q := fun e he => hq ▸ mem_cons_of_mem _ he
  have hpos : ∀ c, 0 < s'.uses hand c → 0 < s.uses hand c := by
    intro c hc
    have := uses_tail hand hq c
    rw [hs'] at hc
    unfold uses refs at hc
    dsimp only at hc
    omega
  have hun : s'.unplaced = s.unplaced := by
    funext e
    unfold unplaced pc
    rw [hs', hpc]
  subst hs'
  refine { h with
    total := ?_, txCell := fun e he => h.txCell e (hmem e he), pool := hok
    ownTx := fun e he h0 => ?_, ownRec := fun l hl e he h0 => ?_, ownRedo := fun r hr h0 => ?_
    ownInj := fun c c' h0 h0' hc hc' heq => ?_, pcOut := fun c h0 hc => ?_
    pcNonneg := fun c => ?_, queued := hqueued, txOnce := fun c h0 => ?_
    redoTx := fun r hr e he => h.redoTx r hr e (hmem e he)
    txSeq := fun e he => h.txSeq e (hmem e he)
    plain := fun hm => ⟨fun e he => (h.plain hm).1 e (hmem e he), (h.plain hm).2⟩ }
  · rw [hun]
    have ht := h.total
    rw [hq, countP_cons] at ht
    dsimp only
    omega
  · exact (congrArg (· + 1) (hseq e.cell)).trans (h.ownTx e (hmem e he) h0)
  · exact (hseq e.cell).trans (h.ownRec l hl e he h0)
  · exact (hseq r.cell).trans (h.ownRedo r hr h0)
  · exact h.ownInj c c' h0 h0' (hpos c hc) (hpos c' hc') ((hseq c).symm.trans (heq.trans (hseq c')))
  · exact (hpc c).trans ((h.pcOut c h0 (hpos c hc)).trans (by rw [hseq c]; rfl))
  · change 0 ≤ (P.val c).pc
    rw [hpc]
    exact h.pcNonneg c
  have := h.txOnce c h0
  rw [hq, countP_cons] at this
  dsimp only
  omega

/-- The head of `tx` leaves. -/
lemma popTx (h : Ledger p s hand k) (hq : s.tx.q = d :: ds) :
    Ledger p (s.pop .tx) hand (k + if s.unplaced d then 1 else 0) := by
  unfold pop
  rw [ring_tx, hq]
  dsimp only
  by_cases h0 : d.cell = 0
  · -- never placed: no cell is touched
    rw [if_pos h0]
    have huses : ∀ c, c ≠ 0 → s.uses hand c = ds.countP (·.cell == c) +
        laneCount (·.cell == c) s.lanes + s.redo.countP (·.cell == c) + hand.count c := by
      intro c hc
      rw [uses_tail hand hq c, if_neg (by omega), Nat.add_zero]
    refine h.leave hq rfl (h.pool.congr fun c hc => (huses c hc).symm) (fun _ => rfl) (fun _ => rfl)
      fun c hc hr => ?_
    rw [h.queued c hc (by rw [huses c hc]; exact hr), hq, countP_cons,
      if_neg (by simp only [beq_iff_eq]; omega), Nat.add_zero]
  rw [if_neg h0]
  have hself : 0 < s.uses hand d.cell := by
    rw [uses_tail hand hq, if_pos rfl]
    omega
  have hnone : ds.countP (·.cell == d.cell) = 0 := by
    have := h.txOnce d.cell h0
    rw [hq, countP_cons, beq_self_eq_true, if_pos rfl] at this
    omega
  refine h.leave hq rfl ?_ (fun c => ?_) (fun c => ?_) fun c hc hr => ?_
  · refine ((h.pool.modify _).unref fun _ => hself).congr fun c hc => ?_
    have := uses_tail hand hq c
    change ds.countP (·.cell == c) + laneCount (·.cell == c) s.lanes +
      s.redo.countP (·.cell == c) + hand.count c = _
    by_cases hcd : c = d.cell
    · subst hcd
      rw [if_pos rfl] at this ⊢
      omega
    · rw [if_neg (fun hx => hcd hx.symm)] at this
      rw [if_neg hcd]
      omega
  · rw [unref_val, modify_val]
    by_cases hcd : c = d.cell
    · rw [hcd, update_self]
    · rw [update_of_ne hcd]
  · rw [unref_val, modify_val]
    by_cases hcd : c = d.cell
    · rw [hcd, update_self]
    · rw [update_of_ne hcd]
  rw [unref_val, modify_val]
  by_cases hcd : c = d.cell
  · rw [hcd, update_self, hnone]
    simp
  rw [update_of_ne hcd]
  have hr' : 0 < s.uses hand c := by
    rw [uses_tail hand hq c, if_neg (fun hx => hcd hx.symm)]
    exact hr
  rw [h.queued c hc hr', hq, countP_cons,
    if_neg (by simp only [beq_iff_eq]; exact fun hx => hcd hx.symm), Nat.add_zero]

/-! ### References of the running operation -/

lemma uses_cons (s : Snd) (hand : List Nat) (c x : Nat) :
    s.uses (c :: hand) x = s.uses hand x + if c = x then 1 else 0 := by
  unfold uses
  rw [count_cons]
  simp only [beq_iff_eq]
  omega

/-- The counts of the pool change and its cells stay; whoever is referred to was so before. -/
lemma repool (h : Ledger p s hand k) {P : Pool Cell} {hand' : List Nat}
    (hval : P.val = s.pool.val) (hpool : P.Ok (s.uses hand'))
    (hpos : ∀ x, x ≠ 0 → 0 < s.uses hand' x → 0 < s.uses hand x)
    (hhand : p.mode ≠ .race → ∀ c ∈ hand', c = 0) : Ledger p { s with pool := P } hand' k := by
  have hpc : pc { s with pool := P } = s.pc := by unfold pc; rw [hval]
  have hun : unplaced { s with pool := P } = s.unplaced := by
    unfold unplaced
    rw [hpc]
  refine { h with
    total := by rw [hun]; exact h.total
    pool := hpool
    ownTx := by rw [hval]; exact h.ownTx
    ownRec := by rw [hval]; exact h.ownRec
    ownRedo := by rw [hval]; exact h.ownRedo
    ownInj := fun x y hx hy hux huy heq => ?_
    pcOut := fun x hx hux => ?_
    pcNonneg := by rw [hpc]; exact h.pcNonneg
    queued := fun x hx hux => ?_
    plain := fun hm => ?_ }
  · rw [hval] at heq
    exact h.ownInj x y hx hy (hpos x hx hux) (hpos y hy huy) heq
  · rw [hpc, hval]
    exact h.pcOut x hx (hpos x hx hux)
  · rw [hval]
    exact h.queued x hx (hpos x hx hux)
  · obtain ⟨h1, h2, h3, -, h5⟩ := h.plain hm
    exact ⟨h1, h2, h3, hhand hm, h5⟩

/-- The operation takes a reference on a cell that is referred to. -/
lemma ref (h : Ledger p s hand k) {c : Nat} (hc : c ≠ 0 → 0 < s.uses hand c)
    (hm : p.mode ≠ .race → c = 0) : Ledger p { s with pool := s.pool.ref c } (c :: hand) k := by
  refine h.repool ref_val ((h.pool.ref hc).congr fun x _ => ?_) (fun x hx hu => ?_)
    fun hm' => forall_mem_cons.mpr ⟨hm hm', (h.plain hm').2.2.2.1⟩
  · rw [uses_cons]
    by_cases hcx : x = c
    · rw [if_pos hcx, if_pos hcx.symm]
    · rw [if_neg hcx, if_neg (fun hh => hcx hh.symm), Nat.add_zero]
  rw [uses_cons] at hu
  by_cases hcx : c = x
  · exact hcx ▸ hc (fun h0 => hx (hcx ▸ h0))
  · rwa [if_neg hcx, Nat.add_zero] at hu

/-- The operation drops a reference. -/
lemma unref {c : Nat} (h : Ledger p s (c :: hand) k) :
    Ledger p { s with pool := s.pool.unref c } hand k := by
  have hc : c ≠ 0 → 0 < s.uses (c :: hand) c := by
    intro _
    rw [uses_cons, if_pos rfl]
    omega
  refine h.repool unref_val ((h.pool.unref hc).congr fun x _ => ?_) (fun x _ hu => ?_)
    fun hm y hy => (h.plain hm).2.2.2.1 y (mem_cons_of_mem _ hy)
  · have hx' := uses_cons s hand c x
    by_cases hcx : x = c
    · rw [if_pos hcx]
      rw [if_pos hcx.symm] at hx'
      omega
    · rw [if_neg hcx]
      rw [if_neg (fun hh => hcx hh.symm)] at hx'
      omega
  · rw [uses_cons]
    omega

/-! ### The redo list -/

/-- The head of the redo list is taken in hand, with its reference. -/
lemma redoPop (h : Ledger p s hand k) {rs : List Redo} (hr : s.redo = r :: rs) :
    Ledger p { s with redo := rs } (r.cell :: hand) (k + 1) := by
  have hmem : ∀ x ∈ rs, x ∈ s.redo := fun x hx => hr ▸ mem_cons_of_mem _ hx
  have huses : uses { s with redo := rs } (r.cell :: hand) = s.uses hand := by
    funext x
    rw [uses_cons]
    unfold uses refs
    rw [hr, countP_cons]
    simp only [beq_iff_eq]
    omega
  have hnd := h.redoNodup
  rw [hr, map_cons, nodup_cons] at hnd
  refine { h with
    total := ?_
    pool := by rw [huses]; exact h.pool
    ownRedo := fun x hx => h.ownRedo x (hmem x hx)
    ownInj := by rw [huses]; exact h.ownInj
    pcOut := by rw [huses]; exact h.pcOut
    queued := by rw [huses]; exact h.queued
    redoOut := fun x hx => h.redoOut x (hmem x hx)
    redoNodup := hnd.2
    redoTx := fun x hx => h.redoTx x (hmem x hx)
    redoSeq := fun x hx => h.redoSeq x (hmem x hx)
    plain := fun hm => ?_
    race := fun hm x hx => h.race hm x (hmem x hx) }
  · have ht := h.total
    rw [hr, length_cons] at ht
    change _ + (s.tx.q.countP s.unplaced) + _ + rs.length + _ = _
    dsimp only
    omega
  obtain ⟨h1, h2, h3, h4, h5⟩ := h.plain hm
  refine ⟨h1, h2, fun x hx => h3 x (hmem x hx), fun y hy => ?_, h5⟩
  rcases mem_cons.mp hy with rfl | hy
  · exact h3 r (hr ▸ mem_cons_self ..)
  · exact h4 y hy

section

variable (h : Ledger p s (r.cell :: hand) (k + 1))
  (hown : r.cell ≠ 0 → (s.pool.val r.cell).seq = r.seq) (hout : s.out r.seq = 0)
  (hnew : ∀ x ∈ s.redo, x.seq ≠ r.seq) (htx : ∀ d ∈ s.tx.q, d.seq ≠ r.seq + 1)
  (hseq : r.seq < s.nextSeq) (hm : p.mode = .race → r.cell ≠ 0)

include h hown hout hnew htx hseq hm

/-- A returned datagram in hand joins the redo list. -/
lemma redoPush {rs : List Redo} (hrs : rs.Perm (r :: s.redo)) :
    Ledger p { s with redo := rs } hand k := by
  have hmem : ∀ {P : Redo → Prop}, P r → (∀ x ∈ s.redo, P x) → ∀ x ∈ rs, P x := by
    intro P h0 hall x hx
    rcases mem_cons.mp (hrs.mem_iff.mp hx) with rfl | hx
    · exact h0
    · exact hall x hx
  have huses : uses { s with redo := rs } hand = s.uses (r.cell :: hand) := by
    funext x
    rw [uses_cons]
    unfold uses refs
    rw [hrs.countP_eq, countP_cons]
    simp only [beq_iff_eq]
    omega
  refine { h with
    total := ?_
    pool := by rw [huses]; exact h.pool
    ownRedo := hmem hown h.ownRedo
    ownInj := by rw [huses]; exact h.ownInj
    pcOut := by rw [huses]; exact h.pcOut
    queued := by rw [huses]; exact h.queued
    redoOut := hmem hout h.redoOut
    redoNodup := ?_
    redoTx := hmem htx h.redoTx
    redoSeq := hmem hseq h.redoSeq
    plain := fun hm' => ?_
    race := fun hm' => hmem (hm hm') (h.race hm') }
  · have ht := h.total
    have hlen := hrs.length_eq
    rw [length_cons] at hlen
    change _ + (s.tx.q.countP s.unplaced) + _ + rs.length + _ = _
    dsimp only
    omega
  · rw [(hrs.map Redo.seq).nodup_iff, map_cons, nodup_cons]
    refine ⟨fun hx => ?_, h.redoNodup⟩
    obtain ⟨x, hx, heq⟩ := mem_map.mp hx
    exact hnew x hx heq
  · obtain ⟨h1, h2, h3, h4, h5⟩ := h.plain hm'
    exact ⟨h1, h2, hmem (h4 _ (mem_cons_self ..)) h3,
      fun y hy => h4 y (mem_cons_of_mem _ hy), h5⟩

/-- `pktRedo` of a returned datagram in hand. -/
lemma pktRedo : Ledger p (s.pktRedo r) hand k := by
  unfold Snd.pktRedo
  split
  · exact h.unref.count .queue
  · exact h.redoPush hown hout hnew htx hseq hm (redoPush_perm r s.redo)

end

lemma redoDrop (h : Ledger p s hand k) (b : Drop) : Ledger p (s.redoDrop b) hand k := by
  unfold Snd.redoDrop
  split
  · exact h
  next r rs hr => exact (h.redoPop hr).unref.count b

/-- A pop leaves the history, the redo list, the records and the owners of the cells. -/
lemma pop_frame (s : Snd) (w : Which) :
    (s.pop w).out = s.out ∧ (s.pop w).redo = s.redo ∧
    ∀ c, ((s.pop w).pool.val c).seq = (s.pool.val c).seq := by
  unfold pop
  split
  · exact ⟨rfl, rfl, fun _ => rfl⟩
  next d ds hq =>
  split
  · cases w <;> exact ⟨rfl, rfl, fun _ => rfl⟩
  refine ⟨by cases w <;> rfl, by cases w <;> rfl, fun c => ?_⟩
  rw [unref_val, modify_val]
  by_cases hc : c = d.cell
  · rw [hc, update_self]
  · rw [update_of_ne hc]

/-- A cell whose every placement came back belongs to a seq of which none may have left. -/
lemma unplaced_out (h : Ledger p s hand k) (hd : d ∈ s.tx.q) (h0 : d.seq ≠ 0)
    (hun : s.unplaced d = true) : s.out (d.seq - 1) = 0 := by
  have hc : d.cell ≠ 0 := fun hc => h0 ((h.txCell d hd).mpr hc)
  have hown := h.ownTx d hd hc
  have hpc := h.pcOut d.cell hc (s.uses_tx hand hd)
  have hle : s.pc d.cell ≤ 0 := by
    simp only [unplaced, Bool.or_eq_true, beq_iff_eq, decide_eq_true_eq] at hun
    exact hun.resolve_left h0
  have hge := h.pcNonneg d.cell
  rw [← hown, Nat.add_sub_cancel, ← hpc]
  omega

/-- Two queued descriptors of one seq would share a cell. -/
lemma tail_seq (h : Ledger p s hand k) (hq : s.tx.q = d :: ds) (h0 : d.seq ≠ 0) :
    ∀ e ∈ ds, e.seq ≠ d.seq := by
  intro e he heq
  have hd : d ∈ s.tx.q := hq ▸ mem_cons_self ..
  have he' : e ∈ s.tx.q := hq ▸ mem_cons_of_mem _ he
  have hdc : d.cell ≠ 0 := fun hc => h0 ((h.txCell d hd).mpr hc)
  have hec : e.cell ≠ 0 := fun hc => h0 (heq ▸ (h.txCell e he').mpr hc)
  have hsame : e.cell = d.cell := by
    refine h.ownInj _ _ hec hdc (s.uses_tx hand he') (s.uses_tx hand hd) ?_
    have h1 := h.ownTx e he' hec
    have h2 := h.ownTx d hd hdc
    omega
  have honce := h.txOnce d.cell hdc
  rw [hq, countP_cons, beq_self_eq_true, if_pos rfl] at honce
  have : 0 < ds.countP (·.cell == d.cell) := countP_pos_iff.mpr ⟨e, he, by simp [hsame]⟩
  omega

/-- The race head, every placement of which came back, joins the redo list. -/
lemma raceRedoHead (h : Ledger p s hand k) (hm : p.mode = .race) (hq : s.tx.q = d :: ds)
    (hun : s.unplaced d = true) (h0 : d.seq ≠ 0) : Ledger p s.raceRedoHead hand k := by
  have hd : d ∈ s.tx.q := hq ▸ mem_cons_self ..
  have hc : d.cell ≠ 0 := fun hc => h0 ((h.txCell d hd).mpr hc)
  have hown := h.ownTx d hd hc
  have hpos : 0 < s.uses hand d.cell := by
    rw [uses_tail hand hq, if_pos rfl]
    omega
  have href := h.ref (fun _ => hpos) (fun hne => absurd hm hne)
  have hun' : unplaced { s with pool := s.pool.ref d.cell } d = true := by
    unfold unplaced pc at hun ⊢
    rw [ref_val]
    exact hun
  have hpop := href.popTx hq
  rw [hun', if_pos rfl] at hpop
  obtain ⟨hout, hredo, hseq⟩ := pop_frame { s with pool := s.pool.ref d.cell } .tx
  have htx := pop_ring (s := { s with pool := s.pool.ref d.cell }) (w := .tx) hq .tx
  rw [if_pos rfl] at htx
  unfold Snd.raceRedoHead
  rw [hq]
  refine hpop.pktRedo (r := ⟨d.seq - 1, d.dg, d.at, d.cell, d.wide⟩) (fun _ => ?_) ?_ ?_ ?_ ?_
    (fun _ => hc)
  · rw [hseq, ref_val]
    dsimp only
    omega
  · rw [hout]
    exact h.unplaced_out hd h0 hun
  · rw [hredo]
    intro x hx heq
    exact h.redoTx x hx d hd (by dsimp only at heq; omega)
  · intro e he
    have he' : e ∈ ds := by
      rw [ring_tx] at htx
      rw [htx] at he
      exact he
    have := h.tail_seq hq h0 e he'
    dsimp only
    omega
  rw [pop_nextSeq]
  have := h.txSeq d hd
  dsimp only
  omega

end Ledger

end Snd

end Rendr.Dgram
