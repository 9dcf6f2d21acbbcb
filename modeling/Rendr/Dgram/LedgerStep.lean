import Rendr.Dgram.Ledger

/-!
# The ledger along every run

Placements, hand-backs and lane deaths keep the books, and so does every event
(`Ledger.step`). The identity and the state of the cells in every reachable state follow:

* `pkt_send_identity` — Sent, the four drop counters, the queued datagrams with no placement that
  may have left and the redo entries add up to the datagrams `WriteTo` accepted; in race, the
  counts of every cell are not negative, its placement count is the number of placements of its
  datagram not handed back, its references are its descriptor, its record entries and its redo
  entry, and the free list holds the cells without a reference, each once.
-/

namespace Rendr.Dgram

open Function List Snd Pool

namespace Snd

variable {p : Params} {now : Int} {s s' : Snd} {k : Nat} {hand : List Nat}

namespace Ledger

/-! ### Records -/

/-- Lane `i`, which is `l`, with the record `es`. -/
def withRecs (s : Snd) (i : Nat) (l : Lane) (es : List Entry) : Snd :=
  { s with lanes := s.lanes.set i { l with recs := es } }

variable {l : Lane} {i : Nat}

/-- The record of one lane changes, with the references it gives to or takes from the running
operation. -/
lemma setRecs (h : Ledger p s hand k) (hl : s.lanes[i]? = some l) (es : List Entry)
    (hand' : List Nat)
    (huses : ∀ c, c ≠ 0 → es.countP (·.cell == c) + hand'.count c = l.recs.countP (·.cell == c) +
      hand.count c)
    (hown : ∀ e ∈ es, e.cell ≠ 0 → (s.pool.val e.cell).seq = e.seq)
    (hseq : ∀ e ∈ es, e.seq < s.nextSeq) (hlen : es.length ≤ Dgram.recLen)
    (hheld : ∀ x, (laneCount (holds p x) s.lanes : Int) + es.countP (holds p x) ≤ s.out x +
      l.recs.countP (holds p x))
    (hm : p.mode ≠ .race → (∀ e ∈ es, e.cell = 0) ∧ ∀ c ∈ hand', c = 0) :
    Ledger p (withRecs s i l es) hand' k := by
  have hcount : ∀ P, laneCount P (withRecs s i l es).lanes + l.recs.countP P =
      laneCount P s.lanes + es.countP P := fun P => laneCount_set P { l with recs := es } hl
  have hrefs : ∀ c, c ≠ 0 → (withRecs s i l es).uses hand' c = s.uses hand c := by
    intro c hc
    have h1 := hcount (·.cell == c)
    have h2 := huses c hc
    unfold uses refs
    simp only [withRecs] at h1 ⊢
    omega
  -- a record of the new state is the new one or an old one
  have hmem : ∀ {P : List Entry → Prop}, P es → (∀ x ∈ s.lanes, P x.recs) →
      ∀ x ∈ (withRecs s i l es).lanes, P x.recs := by
    intro P h0 hall x hx
    rcases mem_or_eq_of_mem_set hx with hx | rfl
    · exact hall x hx
    · exact h0
  refine { h with
    pool := h.pool.congr hrefs
    ownRec := hmem (P := fun es => ∀ e ∈ es, e.cell ≠ 0 → (s.pool.val e.cell).seq = e.seq) hown h.ownRec
    ownInj := fun c c' h0 h0' hc hc' => h.ownInj c c' h0 h0' (hrefs c h0 ▸ hc) (hrefs c' h0' ▸ hc')
    pcOut := fun c h0 hc => h.pcOut c h0 (hrefs c h0 ▸ hc)
    queued := fun c h0 hc => h.queued c h0 (hrefs c h0 ▸ hc)
    held := fun x => ?_
    recLen := hmem (P := fun es => es.length ≤ Dgram.recLen) hlen h.recLen
    recSeq := hmem (P := fun es => ∀ e ∈ es, e.seq < s.nextSeq) hseq h.recSeq
    plain := fun hm' => ?_ }
  · have h1 := hcount (holds p x)
    have h2 := hheld x
    change (laneCount (holds p x) (withRecs s i l es).lanes : Int) ≤ s.out x
    omega
  · obtain ⟨h1, h2, h3, -, h5⟩ := h.plain hm'
    exact ⟨h1, hmem (P := fun es => ∀ e ∈ es, e.cell = 0) (hm hm').1 h2, h3, (hm hm').2, h5⟩

variable {es : List Entry}

/-- The entries of a full record: the newer ones and the oldest. -/
lemma countP_oldest (P : Entry → Bool) (hlen : es.length ≤ Dgram.recLen) :
    es.countP P = (es.take (Dgram.recLen - 1)).countP P +
      (es[Dgram.recLen - 1]?.toList).countP P := by
  have hdrop : es.drop (Dgram.recLen - 1) = es[Dgram.recLen - 1]?.toList := by
    rcases hlast : es[Dgram.recLen - 1]? with _ | o
    · rw [List.getElem?_eq_none_iff] at hlast
      rw [drop_of_length_le hlast]
      rfl
    obtain ⟨hlt, ho⟩ := List.getElem?_eq_some_iff.mp hlast
    have hrec : Dgram.recLen = 64 := rfl
    rw [drop_eq_getElem_cons hlt, ho, drop_of_length_le (by omega)]
    rfl
  rw [← hdrop, ← countP_append, take_append_drop]

/-- The oldest entry of a full record goes, its reference to the running operation. -/
lemma forget (h : Ledger p s hand k) (hl : s.lanes[i]? = some l) :
    Ledger p (withRecs s i l (l.recs.take (Dgram.recLen - 1)))
      (l.recs[Dgram.recLen - 1]?.toList.map Entry.cell ++ hand) k := by
  have hmem := mem_of_getElem? hl
  have hcount := fun P => countP_oldest P (h.recLen l hmem)
  have htake : ∀ x ∈ l.recs.take (Dgram.recLen - 1), x ∈ l.recs := fun x => mem_of_mem_take
  have hlenTake : (l.recs.take (Dgram.recLen - 1)).length ≤ Dgram.recLen - 1 :=
    length_take_le ..
  refine h.setRecs hl _ _ (fun c _ => ?_) (fun x hx => h.ownRec l hmem x (htake x hx))
    (fun x hx => h.recSeq l hmem x (htake x hx)) (by omega) (fun x => ?_)
    (fun hm => ⟨fun x hx => (h.plain hm).2.1 l hmem x (htake x hx), fun c hc => ?_⟩)
  · have hcells : (l.recs[Dgram.recLen - 1]?.toList.map Entry.cell).count c =
        (l.recs[Dgram.recLen - 1]?.toList).countP (·.cell == c) := by
      rw [List.count, countP_map]
      rfl
    rw [count_append, hcells, hcount]
    omega
  · have := h.held x
    rw [hcount (holds p x)]
    omega
  rcases mem_append.mp hc with hc | hc
  · obtain ⟨o, ho, rfl⟩ := mem_map.mp hc
    exact (h.plain hm).2.1 l hmem o (mem_of_getElem? (Option.mem_toList.mp ho))
  · exact (h.plain hm).2.2.2.1 c hc

variable {e : Entry}

/-- A placement joins a record with room for it, with a reference of the running operation. -/
lemma remember (h : Ledger p s (e.cell :: hand) k) (hl : s.lanes[i]? = some l)
    (hlen : l.recs.length < Dgram.recLen) (hown : e.cell ≠ 0 → (s.pool.val e.cell).seq = e.seq)
    (hseq : e.seq < s.nextSeq)
    (hslack : (laneCount (holds p e.seq) s.lanes : Int) + 1 ≤ s.out e.seq) :
    Ledger p (withRecs s i l (e :: l.recs)) hand k := by
  have hmem := mem_of_getElem? hl
  refine h.setRecs hl _ _ (fun c _ => ?_) (fun x hx => ?_) (fun x hx => ?_) hlen (fun x => ?_)
    (fun hm => ⟨fun x hx => ?_, fun c hc => (h.plain hm).2.2.2.1 c (mem_cons_of_mem _ hc)⟩)
  · rw [countP_cons, count_cons]
    omega
  · rcases mem_cons.mp hx with rfl | hx
    · exact hown
    · exact h.ownRec l hmem x hx
  · rcases mem_cons.mp hx with rfl | hx
    · exact hseq
    · exact h.recSeq l hmem x hx
  · have hx := h.held x
    rw [countP_cons]
    split
    next hh =>
      -- the new entry's placement was just made
      have hxe : e.seq = x := by
        simp only [holds, Bool.and_eq_true, beq_iff_eq] at hh
        exact hh.2
      subst hxe
      omega
    · omega
  · rcases mem_cons.mp hx with rfl | hx
    · exact (h.plain hm).2.2.2.1 _ (mem_cons_self ..)
    · exact (h.plain hm).2.1 l hmem x hx

/-- A placement joins its lane's record: the oldest entry goes with its reference. -/
lemma record (h : Ledger p s hand k) (i : Nat)
    (hcell : e.cell ≠ 0 → 0 < s.tx.q.countP (·.cell == e.cell) + hand.count e.cell ∧
      (s.pool.val e.cell).seq = e.seq)
    (hm : p.mode ≠ .race → e.cell = 0) (hseq : e.seq < s.nextSeq)
    (hslack : (laneCount (holds p e.seq) s.lanes : Int) + 1 ≤ s.out e.seq) :
    Ledger p (s.record i e) hand k := by
  unfold Snd.record
  split
  · exact h
  next l hl =>
  have hi : i < s.lanes.length := (List.getElem?_eq_some_iff.mp hl).1
  have hcount := laneCount_set (holds p e.seq) { l with recs := l.recs.take (Dgram.recLen - 1) } hl
  have hle : (l.recs.take (Dgram.recLen - 1)).countP (holds p e.seq) ≤ l.recs.countP (holds p e.seq) :=
    List.Sublist.countP_le (take_sublist ..)
  have hlenTake : (l.recs.take (Dgram.recLen - 1)).length < Dgram.recLen := by
    have : (l.recs.take (Dgram.recLen - 1)).length ≤ Dgram.recLen - 1 := length_take_le ..
    have hrec : Dgram.recLen = 64 := rfl
    omega
  -- whatever became of the oldest entry, the new one takes a reference and its place
  have hrest : ∀ pool : Pool Cell, pool.val = s.pool.val →
      Ledger p { withRecs s i l (l.recs.take (Dgram.recLen - 1)) with pool := pool } hand k →
      Ledger p { s with pool := pool.ref e.cell
                        lanes := s.lanes.set i
                          { l with recs := e :: l.recs.take (Dgram.recLen - 1) } } hand k := by
    intro pool hval hpool
    have href := hpool.ref (c := e.cell) (fun h0 => ?_) hm
    · have hlane : (withRecs s i l (l.recs.take (Dgram.recLen - 1))).lanes[i]? =
          some { l with recs := l.recs.take (Dgram.recLen - 1) } := by
        simp only [withRecs, getElem?_set_self hi]
      have hnew := href.remember hlane hlenTake (fun h0 => ?_) hseq ?_
      · simpa only [withRecs, set_set] using hnew
      · rw [ref_val, hval]
        exact (hcell h0).2
      · simp only [withRecs] at hcount ⊢
        change (laneCount (holds p e.seq) _ : Int) + 1 ≤ s.out e.seq
        omega
    have := (hcell h0).1
    unfold uses refs
    simp only [withRecs]
    omega
  have hforget := h.forget hl
  rcases hlast : l.recs[Dgram.recLen - 1]? with _ | o
  · rw [hlast] at hforget
    exact hrest s.pool rfl hforget
  · rw [hlast] at hforget
    exact hrest (s.pool.unref o.cell) unref_val hforget.unref

/-! ### Placements -/

/-- The counting of `pktPlaced`: frame `f` of cell `c` is placed on lane `i`. -/
def counted (s : Snd) (i : Nat) (f : Frame) (c : Nat) : Snd :=
  let s1 :=
    if c = 0 then { s with ctr.sent := s.ctr.sent + 1 }
    else
      let s' := if s.pc c = 0 then { s with ctr.sent := s.ctr.sent + 1 }
        else { s with copies := s.copies + 1 }
      { s' with pool := s.pool.modify c fun k => { k with pc := k.pc + 1 } }
  { s1 with frames := (i, f) :: s.frames }

lemma pktPlaced_eq (i : Nat) (dg : Bool) (f : Frame) (t : Int) (wide : Bool) (c : Nat) :
    s.pktPlaced i dg f t wide c =
      if dg then (counted s i f c).record i ⟨f.seq, t, c, wide, true⟩ else counted s i f c := rfl

/-- What the counting does, field by field. -/
lemma counted_eq (h : Ledger p s hand k) (i : Nat) (f : Frame) {c : Nat}
    (hown : c ≠ 0 → 0 < s.uses hand c ∧ (s.pool.val c).seq = f.seq)
    (hzero : c = 0 → s.out f.seq = 0) :
    ∃ m, counted s i f c =
      { s with ctr.sent := s.ctr.sent + if s.out f.seq = 0 then 1 else 0
               copies := m
               pool := if c = 0 then s.pool
                 else s.pool.modify c fun k => { k with pc := k.pc + 1 }
               frames := (i, f) :: s.frames } := by
  unfold counted
  by_cases h0 : c = 0
  · refine ⟨s.copies, ?_⟩
    rw [if_pos (hzero h0), if_pos h0, if_pos h0]
  have hpc := h.pcOut c h0 (hown h0).1
  rw [(hown h0).2] at hpc
  by_cases hz : s.out f.seq = 0
  · refine ⟨s.copies, ?_⟩
    simp only [if_neg h0, if_pos hz, hpc]
  · refine ⟨s.copies + 1, ?_⟩
    simp [if_neg h0, if_neg hz, hpc]

/-- **One placement of seq `x` more or fewer**, with the placement count of its cell `c`. The
queues, the redo list and the records stay. -/
lemma recount (h : Ledger p s hand k) {k' : Nat} (x c : Nat) (δ : Int)
    (htx : s'.tx = s.tx) (hbig : s'.txBig = s.txBig) (hredo : s'.redo = s.redo)
    (hlanes : s'.lanes = s.lanes) (hnext : s'.nextSeq = s.nextSeq)
    (hpool : s'.pool.Ok (s.uses hand))
    (hcell : ∀ y, (s'.pool.val y).seq = (s.pool.val y).seq ∧
      (s'.pool.val y).queued = (s.pool.val y).queued)
    (hpc : ∀ y, s'.pc y = s.pc y + if y = c ∧ c ≠ 0 then δ else 0)
    (hout : ∀ y, s'.out y = s.out y + if y = x then δ else 0)
    (hown : ∀ y, y ≠ 0 → 0 < s.uses hand y → ((s.pool.val y).seq = x ↔ y = c))
    (hin : c ≠ 0 → 0 < s.uses hand c) (hx : x < s.nextSeq) (hwait : ∀ r ∈ s.redo, r.seq ≠ x)
    (hheld : (laneCount (holds p x) s.lanes : Int) ≤ s.out x + δ)
    (hone : p.mode ≠ .race → s.out x + δ ≤ 1) (hsent : s'.ctr.sent = s'.sentSeqs.card)
    (htotal : s'.ctr.sent + s'.ctr.drops + s.tx.q.countP s'.unplaced + s.txBig.q.length +
      s.redo.length + k' = s'.log.length) : Ledger p s' hand k' := by
  have huses : s'.uses hand = s.uses hand := by
    funext y
    unfold uses refs
    rw [htx, hlanes, hredo]
  refine ⟨?_, ?_, ?_, ?_, ?_, ?_, ?_, ?_, ?_, ?_, ?_, ?_, ?_, ?_, ?_, ?_, ?_, ?_, ?_, ?_, ?_, hsent, ?_,
    ?_⟩
  · rw [htx, hbig, hredo]; exact htotal
  · rw [hbig]; exact h.big
  · rw [htx]; exact h.txCell
  · rw [huses]; exact hpool
  · rw [htx]; intro d hd h0; rw [(hcell _).1]; exact h.ownTx d hd h0
  · rw [hlanes]; intro l hl e he h0; rw [(hcell _).1]; exact h.ownRec l hl e he h0
  · rw [hredo]; intro r hr h0; rw [(hcell _).1]; exact h.ownRedo r hr h0
  · rw [huses]; intro y z hy hz huy huz heq
    rw [(hcell y).1, (hcell z).1] at heq
    exact h.ownInj y z hy hz huy huz heq
  · rw [huses]; intro y hy huy
    rw [hpc, (hcell y).1, hout, h.pcOut y hy huy]
    by_cases hyc : y = c
    · rw [if_pos ⟨hyc, hyc ▸ hy⟩, if_pos ((hown y hy huy).mpr hyc)]
    · rw [if_neg (fun hh => hyc hh.1), if_neg (fun hh => hyc ((hown y hy huy).mp hh))]
  · intro y
    rw [hpc]
    by_cases hyc : y = c ∧ c ≠ 0
    · rw [if_pos hyc, hyc.1, h.pcOut c hyc.2 (hin hyc.2), (hown c hyc.2 (hin hyc.2)).mpr rfl]
      omega
    · rw [if_neg hyc]
      have := h.pcNonneg y
      omega
  · rw [huses, htx]; intro y hy huy; rw [(hcell y).2]; exact h.queued y hy huy
  · rw [htx]; exact h.txOnce
  · rw [hredo]; intro r hr
    rw [hout, if_neg (hwait r hr), h.redoOut r hr]
    rfl
  · rw [hredo]; exact h.redoNodup
  · rw [hredo, htx]; exact h.redoTx
  · rw [hlanes]; intro y
    rw [hout]
    by_cases hyx : y = x
    · rw [if_pos hyx, hyx]
      exact hheld
    · rw [if_neg hyx]
      have := h.held y
      omega
  · rw [hlanes]; exact h.recLen
  · rw [htx, hnext]; exact h.txSeq
  · rw [hlanes, hnext]; exact h.recSeq
  · rw [hredo, hnext]; exact h.redoSeq
  · rw [hnext]; intro y hy
    rw [hout, if_neg (by omega), h.outSeq y hy]
    rfl
  · intro hm
    obtain ⟨h1, h2, h3, h4, h5⟩ := h.plain hm
    rw [htx, hlanes, hredo]
    refine ⟨h1, h2, h3, h4, fun y => ?_⟩
    rw [hout]
    by_cases hyx : y = x
    · rw [if_pos hyx, hyx]
      exact hone hm
    · rw [if_neg hyx]
      have := h5 y
      omega
  · rw [hredo]; exact h.race

/-- The cells in use of a seq are the one it is placed with. -/
lemma own_iff (h : Ledger p s hand k) {x c : Nat}
    (hown : c ≠ 0 → 0 < s.uses hand c ∧ (s.pool.val c).seq = x) (hplain : c = 0 → p.mode ≠ .race) :
    ∀ y, y ≠ 0 → 0 < s.uses hand y → ((s.pool.val y).seq = x ↔ y = c) := by
  intro y hy huy
  by_cases h0 : c = 0
  · -- outside race no cell is in use
    obtain ⟨h1, h2, h3, h4, -⟩ := h.plain (hplain h0)
    exfalso
    have htx : s.tx.q.countP (·.cell == y) = 0 := by
      refine countP_eq_zero.mpr fun d hd => ?_
      have := (h.txCell d hd).mp (h1 d hd)
      simp only [this, beq_iff_eq]
      exact fun hh => hy hh.symm
    have hrec : laneCount (·.cell == y) s.lanes = 0 := by
      unfold laneCount
      rw [List.sum_eq_zero_iff_forall_eq_nat]
      intro n hn
      obtain ⟨l, hl, rfl⟩ := mem_map.mp hn
      refine countP_eq_zero.mpr fun e he => ?_
      simp only [h2 l hl e he, beq_iff_eq]
      exact fun hh => hy hh.symm
    have hredo : s.redo.countP (·.cell == y) = 0 := by
      refine countP_eq_zero.mpr fun r hr => ?_
      simp only [h3 r hr, beq_iff_eq]
      exact fun hh => hy hh.symm
    have hhand : hand.count y = 0 := count_eq_zero.mpr fun hh => hy (h4 y hh)
    unfold uses refs at huy
    omega
  · refine ⟨fun hx => h.ownInj y c hy h0 huy (hown h0).1 (hx.trans (hown h0).2.symm), ?_⟩
    rintro rfl
    exact (hown h0).2

variable {x : Nat}

/-- The seqs with a placement that may have left, after one more of `x`. -/
lemma sentSeqs_placed (hx : x < s.nextSeq) (hnext : s'.nextSeq = s.nextSeq)
    (hout : ∀ y, s'.out y = s.out y + if y = x then 1 else 0) (hge : 0 ≤ s.out x) :
    s'.sentSeqs.card = s.sentSeqs.card + if s.out x = 0 then 1 else 0 := by
  have hins : s'.sentSeqs = insert x s.sentSeqs := by
    ext y
    simp only [sentSeqs, Finset.mem_filter, Finset.mem_range, Finset.mem_insert, hnext, hout]
    by_cases hyx : y = x
    · subst hyx
      simp only [if_true, hx, true_and, true_or, iff_true]
      omega
    · simp [hyx]
  rw [hins]
  by_cases hz : s.out x = 0
  · rw [if_pos hz, Finset.card_insert_of_notMem]
    simp only [sentSeqs, Finset.mem_filter, hz]
    omega
  have hmem : x ∈ s.sentSeqs := by
    simp only [sentSeqs, Finset.mem_filter, Finset.mem_range]
    exact ⟨hx, by omega⟩
  rw [if_neg hz, Finset.insert_eq_of_mem hmem, Nat.add_zero]

/-- The placement count of a cell moves by `δ`, and nothing else of the pool. -/
lemma shift_pool {P : Pool Cell} {use : Nat → Nat} (h : P.Ok use) (c : Nat) (g : Cell → Cell)
    (δ : Int) (hg : ∀ k, g k = { k with pc := k.pc + δ }) :
    let P' := if c = 0 then P else P.modify c g
    P'.Ok use ∧ ∀ y, ((P'.val y).seq = (P.val y).seq ∧ (P'.val y).queued = (P.val y).queued) ∧
      (P'.val y).pc = (P.val y).pc + if y = c ∧ c ≠ 0 then δ else 0 := by
  by_cases h0 : c = 0
  · rw [if_pos h0]
    refine ⟨h, fun y => ⟨⟨rfl, rfl⟩, ?_⟩⟩
    rw [if_neg (fun hh => hh.2 h0), Int.add_zero]
  rw [if_neg h0]
  refine ⟨h.modify g, fun y => ?_⟩
  rw [modify_val]
  by_cases hy : y = c
  · rw [hy, update_self, hg, if_pos ⟨rfl, h0⟩]
    exact ⟨⟨rfl, rfl⟩, rfl⟩
  · rw [update_of_ne hy, if_neg (fun hh => hy hh.1), Int.add_zero]
    exact ⟨⟨rfl, rfl⟩, rfl⟩

variable {f : Frame}

section

variable (h : Ledger p s hand k) {i c k' : Nat} (hx : f.seq < s.nextSeq)
  (hredo : ∀ r ∈ s.redo, r.seq ≠ f.seq) (hrace : c = 0 → p.mode ≠ .race)
  (htotal : s.ctr.sent + (if s.out f.seq = 0 then 1 else 0) + s.ctr.drops +
    s.tx.q.countP (counted s i f c).unplaced + s.txBig.q.length + s.redo.length + k' =
      s.log.length)

include h hx hredo hrace htotal

/-- A placement of a seq in use, by a cell of that seq or, outside race, by none. The datagram was
queued without a placement that may have left, placed before, or in the operation's hands. -/
lemma placed (hown : c ≠ 0 → 0 < s.uses hand c ∧ (s.pool.val c).seq = f.seq)
    (hplain : p.mode ≠ .race → s.out f.seq = 0) :
    Ledger p (counted s i f c) hand k' ∧ (counted s i f c).out f.seq = s.out f.seq + 1 := by
  obtain ⟨m, heq⟩ := h.counted_eq i f hown fun h0 => hplain (hrace h0)
  have hout : ∀ y, (counted s i f c).out y = s.out y + if y = f.seq then 1 else 0 := by
    intro y
    rw [out_placed y i f (s := s) (by rw [heq]) (by rw [heq])]
    by_cases hy : f.seq = y
    · rw [if_pos hy, if_pos hy.symm]
    · rw [if_neg hy, if_neg (fun hh => hy hh.symm)]
  have hge : 0 ≤ s.out f.seq := by
    have := h.held f.seq
    omega
  obtain ⟨hpool, hcell⟩ := shift_pool h.pool c (fun k => { k with pc := k.pc + 1 }) 1 fun _ => rfl
  refine ⟨h.recount f.seq c 1 (by rw [heq]) (by rw [heq]) (by rw [heq]) (by rw [heq]) (by rw [heq])
    (by rw [heq]; exact hpool) (fun y => by rw [heq]; exact (hcell y).1)
    (fun y => by rw [heq]; exact (hcell y).2) hout (h.own_iff hown hrace) (fun h0 => (hown h0).1) hx
    hredo ?_ (fun hm => ?_) ?_ ?_, by rw [hout, if_pos rfl]⟩
  · have := h.held f.seq
    omega
  · rw [hplain hm]
    decide
  · rw [sentSeqs_placed hx (by rw [heq]) hout hge, ← h.sent, heq]
  have hctr : (counted s i f c).ctr.sent = s.ctr.sent + (if s.out f.seq = 0 then 1 else 0) := by
    rw [heq]
  have hdrops : (counted s i f c).ctr.drops = s.ctr.drops := by
    rw [heq]
    rfl
  have hlog : (counted s i f c).log = s.log := by rw [heq]
  rw [hctr, hdrops, hlog]
  exact htotal

/-- The placement with the lane's record: the cell is referred to by the queue or by the running
operation. -/
lemma pktPlaced {dg wide : Bool} {t : Int}
    (hin : c ≠ 0 → 0 < s.tx.q.countP (·.cell == c) + hand.count c ∧ (s.pool.val c).seq = f.seq)
    (hplain : p.mode ≠ .race → c = 0 ∧ s.out f.seq = 0) :
    Ledger p (s.pktPlaced i dg f t wide c) hand k' := by
  have hown : c ≠ 0 → 0 < s.uses hand c ∧ (s.pool.val c).seq = f.seq := by
    intro h0
    refine ⟨?_, (hin h0).2⟩
    have := (hin h0).1
    unfold uses refs
    omega
  obtain ⟨hcounted, hout⟩ := h.placed hx hredo hrace htotal hown fun hm => (hplain hm).2
  obtain ⟨m, heq⟩ := h.counted_eq i f hown fun h0 => (hplain (hrace h0)).2
  rw [pktPlaced_eq]
  split
  · refine hcounted.record i (fun h0 => ?_) (fun hm => (hplain hm).1) ?_ ?_
    · have hc : c ≠ 0 := h0
      rw [heq]
      rw [if_neg hc, modify_val, update_self]
      exact hin hc
    · rw [heq]
      exact hx
    change (laneCount (holds p f.seq) (counted s i f c).lanes : Int) + 1 ≤ _
    rw [hout, heq]
    have := h.held f.seq
    dsimp only
    omega
  · exact hcounted

end

/-! ### Queued datagrams without a placement that may have left -/

variable {d : Desc}

section

variable (h : Ledger p s hand k)
include h

variable {i c : Nat}

/-- A placement of the seq of cell `c` concerns the descriptor of that cell only. -/
lemma unplaced_other (hown : c ≠ 0 → 0 < s.uses hand c ∧ (s.pool.val c).seq = f.seq)
    (hzero : c = 0 → s.out f.seq = 0) (hd : d.cell ≠ c ∨ c = 0) :
    (counted s i f c).unplaced d = s.unplaced d := by
  obtain ⟨m, heq⟩ := h.counted_eq i f hown hzero
  rw [heq]
  unfold unplaced pc
  split
  · rfl
  next h0 => rw [modify_val, update_of_ne (hd.resolve_right h0)]

/-- The first placement that may have left: the queued descriptor, if there is one, has a
placement now. -/
lemma unplaced_first (h0 : c ≠ 0)
    (hown : 0 < s.uses hand c ∧ (s.pool.val c).seq = f.seq) (hz : s.out f.seq = 0) :
    s.tx.q.countP (counted s i f c).unplaced + s.tx.q.countP (·.cell == c) =
      s.tx.q.countP s.unplaced := by
  have hpc : s.pc c = 0 := by rw [h.pcOut c h0 hown.1, hown.2, hz]
  refine countP_split _ (fun d _ hne => ?_) fun d hd heq => ?_
  · exact h.unplaced_other (fun _ => hown) (fun hc => absurd hc h0)
      (Or.inl (by simpa using hne))
  have hdc : d.cell = c := by simpa using heq
  have hseq : d.seq ≠ 0 := fun hs => h0 (hdc ▸ (h.txCell d hd).mp hs)
  obtain ⟨m, hcnt⟩ := h.counted_eq i f (c := c) (fun _ => hown) fun hc => absurd hc h0
  refine ⟨by simp [unplaced, hdc, hpc], ?_⟩
  rw [hcnt]
  have hpc' : (s.pool.val c).pc = 0 := hpc
  simp only [unplaced, pc, hdc, if_neg h0, modify_val, update_self, hpc']
  simp [hseq]

/-- A further placement: nothing changes. -/
lemma unplaced_again (h0 : c ≠ 0)
    (hown : 0 < s.uses hand c ∧ (s.pool.val c).seq = f.seq) (hz : s.out f.seq ≠ 0) :
    s.tx.q.countP (counted s i f c).unplaced = s.tx.q.countP s.unplaced := by
  have hpc : 0 < (s.pool.val c).pc := by
    have h1 := h.pcOut c h0 hown.1
    have h2 := h.pcNonneg c
    rw [hown.2] at h1
    unfold pc at h1 h2
    omega
  refine countP_congr fun d hd => ?_
  by_cases hdc : d.cell = c
  · obtain ⟨m, hcnt⟩ := h.counted_eq i f (c := c) (fun _ => hown) fun hc => absurd hc h0
    have hseq : d.seq ≠ 0 := fun hs => h0 (hdc ▸ (h.txCell d hd).mp hs)
    rw [hcnt]
    simp only [unplaced, pc, hdc, if_neg h0, modify_val, update_self]
    simp only [Bool.or_eq_true, beq_iff_eq, hseq, false_or, decide_eq_true_eq]
    omega
  · rw [h.unplaced_other (fun _ => hown) (fun hc => absurd hc h0) (Or.inl hdc)]

/-! ### The three ways a datagram is placed -/

/-- A queued race datagram that has a seq is placed. -/
lemma placeQueued (hm : p.mode = .race) (hd : d ∈ s.tx.q) (h0 : d.seq ≠ 0) (i : Nat) (dg : Bool)
    (g : Dg) (t : Int) (wide : Bool) :
    Ledger p (s.pktPlaced i dg ⟨d.seq - 1, g⟩ t wide d.cell) hand k := by
  have hc : d.cell ≠ 0 := fun hc => h0 ((h.txCell d hd).mpr hc)
  have hown := h.ownTx d hd hc
  have hmem : 0 < s.tx.q.countP (·.cell == d.cell) :=
    countP_pos_iff.mpr ⟨d, hd, beq_self_eq_true _⟩
  have huse : 0 < s.uses hand d.cell ∧ (s.pool.val d.cell).seq = d.seq - 1 :=
    ⟨s.uses_tx hand hd, by omega⟩
  have hseq := h.txSeq d hd
  refine h.pktPlaced (by dsimp only; omega) (fun r hr heq => h.redoTx r hr d hd ?_)
    (fun hz => absurd hz hc) ?_ (fun _ => ⟨by omega, huse.2⟩) fun hne => absurd hm hne
  · dsimp only at heq
    omega
  have ht := h.total
  have honce := h.txOnce d.cell hc
  by_cases hz : s.out (d.seq - 1) = 0
  · have hcount := h.unplaced_first (i := i) (f := ⟨d.seq - 1, g⟩) hc huse hz
    rw [if_pos hz]
    omega
  · have hcount := h.unplaced_again (i := i) (f := ⟨d.seq - 1, g⟩) hc huse hz
    rw [if_neg hz, hcount]
    omega

/-- The oldest returned datagram is placed again. -/
lemma placeRedoHead (i : Nat) (dg : Bool) : Ledger p (s.placeRedoHead i dg) hand k := by
  unfold Snd.placeRedoHead
  split
  · exact h
  next r rs hr =>
  have hmem : r ∈ s.redo := hr ▸ mem_cons_self ..
  have hnd := h.redoNodup
  rw [hr, map_cons, nodup_cons] at hnd
  have hpop := h.redoPop hr
  have hz : out { s with redo := rs } r.seq = 0 := h.redoOut r hmem
  have huse : r.cell ≠ 0 → 0 < uses { s with redo := rs } (r.cell :: hand) r.cell ∧
      (s.pool.val r.cell).seq = r.seq := by
    intro h0
    refine ⟨?_, h.ownRedo r hmem h0⟩
    rw [uses_cons, if_pos rfl]
    omega
  -- its descriptor left the queue
  have hgone : r.cell ≠ 0 → s.tx.q.countP (·.cell == r.cell) = 0 := by
    intro h0
    refine countP_eq_zero.mpr fun d hd hdc => ?_
    have hdc : d.cell = r.cell := by simpa using hdc
    have h1 := h.ownTx d hd (hdc ▸ h0)
    have h2 := h.ownRedo r hmem h0
    rw [hdc, h2] at h1
    exact h.redoTx r hmem d hd h1.symm
  refine Ledger.unref (hpop.pktPlaced (h.redoSeq r hmem)
    (fun x hx heq => hnd.1 (mem_map.mpr ⟨x, hx, heq⟩)) (fun h0 hm => h.race hm r hmem h0) ?_
    (fun h0 => ⟨by rw [count_cons_self]; omega, (huse h0).2⟩)
    fun hm => ⟨(h.plain hm).2.2.1 r hmem, hz⟩)
  have ht := hpop.total
  rw [if_pos hz]
  by_cases h0 : r.cell = 0
  · have hun : (counted { s with redo := rs } i ⟨r.seq, r.dg⟩ r.cell).unplaced =
        unplaced { s with redo := rs } := by
      funext d
      exact hpop.unplaced_other (fun hne => absurd h0 hne) (fun _ => hz) (Or.inr h0)
    rw [hun]
    omega
  have hcount := hpop.unplaced_first (i := i) (f := ⟨r.seq, r.dg⟩) h0 (huse h0) hz
  have hg := hgone h0
  dsimp only at hcount ht ⊢
  omega

end

/-- A list and one element of it. -/
lemma set_split {l : List Desc} {j : Nat} (hq : l[j]? = some d) :
    ∃ as bs, l = as ++ d :: bs ∧ ∀ d', l.set j d' = as ++ d' :: bs := by
  induction l generalizing j with
  | nil => simp at hq
  | cons a l ih =>
    cases j with
    | zero =>
      simp only [getElem?_cons_zero, Option.some.injEq] at hq
      exact ⟨[], l, by rw [hq]; rfl, fun _ => rfl⟩
    | succ j =>
      obtain ⟨as, bs, hl, hset⟩ := ih (by simpa using hq)
      exact ⟨a :: as, bs, by rw [hl]; rfl, fun d' => by rw [set_cons_succ, hset]; rfl⟩

/-- A cell in use belongs to a seq that was assigned. -/
lemma use_seq (h : Ledger p s [] k) {c : Nat} (h0 : c ≠ 0) (hc : 0 < s.uses [] c) :
    (s.pool.val c).seq < s.nextSeq := by
  unfold uses refs at hc
  rcases Nat.eq_zero_or_pos (s.tx.q.countP (·.cell == c)) with htx | htx
  · rcases Nat.eq_zero_or_pos (s.redo.countP (·.cell == c)) with hredo | hredo
    · have hrec : laneCount (·.cell == c) s.lanes ≠ 0 := by
        simp only [count_nil] at hc
        omega
      unfold laneCount at hrec
      rw [Ne, List.sum_eq_zero_iff_forall_eq_nat] at hrec
      push_neg at hrec
      obtain ⟨n, hn, hne⟩ := hrec
      obtain ⟨l, hl, rfl⟩ := mem_map.mp hn
      obtain ⟨e, he, hec⟩ := countP_pos_iff.mp (Nat.pos_of_ne_zero hne)
      have hec : e.cell = c := by simpa using hec
      rw [← hec, h.ownRec l hl e he (hec ▸ h0)]
      exact h.recSeq l hl e he
    obtain ⟨r, hr, hrc⟩ := countP_pos_iff.mp hredo
    have hrc : r.cell = c := by simpa using hrc
    rw [← hrc, h.ownRedo r hr (hrc ▸ h0)]
    exact h.redoSeq r hr
  obtain ⟨d, hd, hdc⟩ := countP_pos_iff.mp htx
  have hdc : d.cell = c := by simpa using hdc
  have h1 := h.ownTx d hd (hdc ▸ h0)
  have h2 := h.txSeq d hd
  rw [hdc] at h1
  omega

/-- The next seq is taken: it was not in use. -/
lemma bumpSeq (h : Ledger p s hand k) : Ledger p { s with nextSeq := s.nextSeq + 1 } hand k := by
  have hsent : sentSeqs { s with nextSeq := s.nextSeq + 1 } = s.sentSeqs := by
    ext y
    simp only [sentSeqs, Finset.mem_filter, Finset.mem_range]
    change (y < s.nextSeq + 1 ∧ 0 < s.out y) ↔ (y < s.nextSeq ∧ 0 < s.out y)
    refine ⟨fun hy => ⟨?_, hy.2⟩, fun hy => ⟨by omega, hy.2⟩⟩
    by_contra hge
    have := h.outSeq y (by omega)
    omega
  exact { h with
    txSeq := fun d hd => Nat.le_succ_of_le (h.txSeq d hd)
    recSeq := fun l hl e he => Nat.lt_succ_of_lt (h.recSeq l hl e he)
    redoSeq := fun r hr => Nat.lt_succ_of_lt (h.redoSeq r hr)
    outSeq := fun x hx => h.outSeq x (Nat.le_of_succ_le hx)
    sent := by rw [hsent]; exact h.sent }

/-- The state in which the descriptor at index `j` has the next seq and a fresh cell. -/
def assigned (s : Snd) (j : Nat) (d : Desc) : Snd :=
  { s with pool := (s.pool.alloc ⟨0, true, s.nextSeq⟩).2, nextSeq := s.nextSeq + 1
           tx.q := s.tx.q.set j (s.firstPlaced d) }

/-- A queued race datagram is given its seq and its cell. -/
lemma assign (h : Ledger p s [] k) (hm : p.mode = .race) {j : Nat} (hq : s.tx.q[j]? = some d)
    (h0 : d.seq = 0) : Ledger p (assigned s j d) [] k := by
  obtain ⟨hc0, hfresh, hok, hval⟩ := h.pool.alloc ⟨0, true, s.nextSeq⟩
  have hfp : s.firstPlaced d =
      { d with seq := s.nextSeq + 1, cell := (s.pool.alloc ⟨0, true, s.nextSeq⟩).1 } := rfl
  unfold assigned
  generalize hd' : s.firstPlaced d = d' at hfp ⊢
  generalize (s.pool.alloc ⟨0, true, s.nextSeq⟩).2 = P at hok hval ⊢
  generalize (s.pool.alloc ⟨0, true, s.nextSeq⟩).1 = c at hc0 hfresh hok hval hfp
  have hd'seq : d'.seq = s.nextSeq + 1 := by rw [hfp]
  have hd'cell : d'.cell = c := by rw [hfp]
  obtain ⟨as, bs, hl, hset⟩ := set_split hq
  rw [hset d']
  have hdcell : d.cell = 0 := (h.txCell d (mem_of_getElem? hq)).mp h0
  -- the fresh cell is in nobody's books
  have hne : ∀ y, y ≠ 0 → 0 < s.uses [] y → y ≠ c := by
    rintro y - hy rfl
    omega
  have hval' : ∀ y, y ≠ c → P.val y = s.pool.val y := by
    intro y hy
    rw [hval, update_of_ne hy]
  have hvalc : P.val c = ⟨0, true, s.nextSeq⟩ := by rw [hval, update_self]
  have hcount : ∀ y, y ≠ 0 → (as ++ d' :: bs).countP (·.cell == y) =
      s.tx.q.countP (·.cell == y) + if y = c then 1 else 0 := by
    intro y hy
    rw [hl, countP_append, countP_append, countP_cons, countP_cons, hd'cell,
      hdcell]
    by_cases hyc : y = c
    · simp only [hyc, beq_self_eq_true, if_true]
      rw [if_neg (by simp only [beq_iff_eq]; exact fun hh => hc0 hh.symm)]
      omega
    · rw [if_neg hyc, if_neg (by simp only [beq_iff_eq]; exact fun hh => hyc hh.symm),
        if_neg (by simp only [beq_iff_eq]; exact fun hh => hy hh.symm), Nat.add_zero, Nat.add_zero]
  have huses : ∀ y, y ≠ 0 → uses { s with
      pool := P, nextSeq := s.nextSeq + 1, tx.q := as ++ d' :: bs } [] y =
      s.uses [] y + if y = c then 1 else 0 := by
    intro y hy
    unfold uses refs
    dsimp only
    rw [hcount y hy]
    omega
  have huse : ∀ y, y ≠ 0 → 0 < s.uses [] y + (if y = c then 1 else 0) → y ≠ c → 0 < s.uses [] y := by
    intro y _ hy hyc
    rwa [if_neg hyc] at hy
  have hcellne : ∀ e ∈ s.tx.q, e.cell ≠ c := by
    intro e he
    by_cases hec : e.cell = 0
    · rw [hec]
      exact fun hh => hc0 hh.symm
    · exact hne e.cell hec (s.uses_tx [] he)
  have hmem : ∀ e ∈ as ++ d' :: bs, e = d' ∨ e ∈ s.tx.q := by
    intro e he
    rw [hl]
    simp only [mem_append, mem_cons] at he ⊢
    tauto
  refine { h.bumpSeq with
    total := ?_, txCell := fun e he => ?_
    pool := hok.congr fun y hy => ?_
    ownTx := fun e he hec => ?_, ownRec := fun l hl' e he hec => ?_, ownRedo := fun r hr hrc => ?_
    ownInj := fun y z hy hz huy huz heq => ?_, pcOut := fun y hy huy => ?_
    pcNonneg := fun y => ?_, queued := fun y hy huy => ?_, txOnce := fun y hy => ?_
    redoTx := fun r hr e he => ?_, txSeq := fun e he => ?_
    plain := fun hne' => absurd hm hne' }
  · -- the datagram is still one without a placement that may have left
    have hun : ∀ e ∈ s.tx.q, unplaced { s with
        pool := P, nextSeq := s.nextSeq + 1, tx.q := as ++ d' :: bs } e = s.unplaced e := by
      intro e he
      unfold unplaced pc
      rw [hval' _ (hcellne e he)]
    have hunNew : unplaced { s with
        pool := P, nextSeq := s.nextSeq + 1, tx.q := as ++ d' :: bs } d' = true := by
      unfold unplaced pc
      rw [hd'cell, hvalc]
      simp
    have hunOld : s.unplaced d = true := by simp [unplaced, h0]
    set un := unplaced { s with pool := P, nextSeq := s.nextSeq + 1, tx.q := as ++ d' :: bs }
    have hcnt : (as ++ d' :: bs).countP un =
        s.tx.q.countP s.unplaced := by
      have has : as.countP un = as.countP s.unplaced :=
        countP_congr fun e he => by rw [hun e (by rw [hl]; simp [he])]
      have hbs : bs.countP un = bs.countP s.unplaced :=
        countP_congr fun e he => by rw [hun e (by rw [hl]; simp [he])]
      rw [hl, countP_append, countP_append, countP_cons, countP_cons, has, hbs,
        hunNew, hunOld]
    have ht := h.total
    rw [hcnt]
    exact ht
  · rcases hmem e he with rfl | he
    · rw [hd'seq, hd'cell]
      exact ⟨fun hh => absurd hh (by omega), fun hh => absurd hh hc0⟩
    · exact h.txCell e he
  · rw [huses y hy]
    by_cases hyc : y = c
    · rw [if_pos hyc, if_pos hyc, hyc, hfresh]
    · rw [if_neg hyc, if_neg hyc, Nat.add_zero]
  · rcases hmem e he with rfl | he
    · dsimp only
      rw [hd'cell, hvalc, hd'seq]
    · dsimp only
      rw [hval' _ (hcellne e he)]
      exact h.ownTx e he hec
  · dsimp only
    rw [hval' _ (hne _ hec (s.uses_rec [] hl' he))]
    exact h.ownRec l hl' e he hec
  · dsimp only
    rw [hval' _ (hne _ hrc (s.uses_redo [] hr))]
    exact h.ownRedo r hr hrc
  · rw [huses y hy] at huy
    rw [huses z hz] at huz
    dsimp only at heq
    by_cases hyc : y = c
    · by_cases hzc : z = c
      · rw [hyc, hzc]
      rw [hyc, hvalc, hval' z hzc] at heq
      have := h.use_seq hz (huse z hz huz hzc)
      dsimp only at heq
      omega
    by_cases hzc : z = c
    · rw [hzc, hvalc, hval' y hyc] at heq
      have := h.use_seq hy (huse y hy huy hyc)
      dsimp only at heq
      omega
    · rw [hval' y hyc, hval' z hzc] at heq
      exact h.ownInj y z hy hz (huse y hy huy hyc) (huse z hz huz hzc) heq
  · rw [huses y hy] at huy
    by_cases hyc : y = c
    · change (P.val y).pc = s.out (P.val y).seq
      rw [hyc, hvalc]
      exact (h.outSeq _ le_rfl).symm
    · change (P.val y).pc = s.out (P.val y).seq
      rw [hval' y hyc]
      exact h.pcOut y hy (huse y hy huy hyc)
  · change 0 ≤ (P.val y).pc
    by_cases hyc : y = c
    · rw [hyc, hvalc]
    · rw [hval' y hyc]
      exact h.pcNonneg y
  · rw [huses y hy] at huy
    rw [hcount y hy]
    by_cases hyc : y = c
    · rw [hyc, hvalc, if_pos rfl]
      simp
    · rw [hval' y hyc, if_neg hyc, Nat.add_zero]
      exact h.queued y hy (huse y hy huy hyc)
  · dsimp only
    rw [hcount y hy]
    by_cases hyc : y = c
    · have : s.tx.q.countP (·.cell == y) = 0 :=
        countP_eq_zero.mpr fun e he hec =>
          hcellne e he ((by simpa using hec : e.cell = y).trans hyc)
      rw [if_pos hyc, this]
    · rw [if_neg hyc]
      exact h.txOnce y hy
  · rcases hmem e he with rfl | he
    · have := h.redoSeq r hr
      omega
    · exact h.redoTx r hr e he
  · rcases hmem e he with rfl | he
    · exact le_of_eq hd'seq
    · exact Nat.le_succ_of_le (h.txSeq e he)

/-- A queued race datagram is placed. -/
lemma placeAt (h : Ledger p s [] k) (hm : p.mode = .race) {j : Nat} (hq : s.tx.q[j]? = some d)
    (i : Nat) (dg : Bool) : Ledger p (s.placeAt j i dg) [] k := by
  unfold Snd.placeAt
  rw [hq]
  dsimp only
  split
  next h0 =>
    have hmem : s.firstPlaced d ∈ (assigned s j d).tx.q :=
      mem_iff_getElem?.mpr ⟨j, getElem?_set_self (List.getElem?_eq_some_iff.mp hq).1⟩
    exact (h.assign hm hq h0).placeQueued hm hmem (Nat.succ_ne_zero _) i dg d.dg d.at d.wide
  next h0 => exact h.placeQueued hm (mem_of_getElem? hq) h0 i dg d.dg d.at d.wide

/-- A head without a cell leaves. -/
lemma pop_plain {w : Which} {ds : List Desc} (hq : (s.ring w).q = d :: ds) (h0 : d.cell = 0) :
    s.pop w = s.setRing w { s.ring w with q := ds, pos := (s.ring w).pos + 1 } := by
  unfold pop
  rw [hq]
  dsimp only
  rw [if_pos h0]

/-- A placement without a cell does not look at the queues. -/
lemma pktPlaced_setRing (w : Which) (r : Ring) (n i : Nat) (dg : Bool) (f : Frame) (t : Int)
    (wide : Bool) :
    Snd.pktPlaced { s.setRing w r with nextSeq := n } i dg f t wide 0 =
      { (s.pktPlaced i dg f t wide 0).setRing w r with nextSeq := n } := by
  unfold Snd.pktPlaced
  cases w <;> cases dg
  · rfl
  · simp only [if_true, Snd.record, setRing]
    split <;> rfl
  · rfl
  · simp only [if_true, Snd.record, setRing]
    split <;> rfl

lemma pktPlaced_ring (w : Which) (i : Nat) (dg : Bool) (f : Frame) (t : Int) (wide : Bool) :
    (s.pktPlaced i dg f t wide 0).ring w = s.ring w := by
  unfold Snd.pktPlaced
  cases w <;> cases dg
  · rfl
  · simp only [if_true, Snd.record]
    split <;> rfl
  · rfl
  · simp only [if_true, Snd.record]
    split <;> rfl

/-- Selector and bond: the head leaves the queue and is placed with the next seq. -/
lemma placeHead (h : Ledger p s [] k) (hm : p.mode ≠ .race) (w : Which) (i : Nat) (dg : Bool) :
    Ledger p (s.placeHead w i dg) [] k := by
  unfold Snd.placeHead
  split
  · exact h
  next d ds hq =>
  have hhead : d.seq = 0 ∧ d.cell = 0 ∧ Ledger p (s.pop w) [] (k + 1) := by
    cases w with
    | tx =>
      have hd : d ∈ s.tx.q := by
        rw [ring_tx] at hq
        exact hq ▸ mem_cons_self ..
      have h0 := (h.plain hm).1 d hd
      have hpop := h.popTx hq
      have hun : s.unplaced d = true := by simp [unplaced, h0]
      rw [hun, if_pos rfl] at hpop
      exact ⟨h0, (h.txCell d hd).mp h0, hpop⟩
    | big =>
      have hd : d ∈ s.txBig.q := by
        rw [ring_big] at hq
        exact hq ▸ mem_cons_self ..
      exact ⟨(h.big d hd).1, (h.big d hd).2, h.popBig hq⟩
  obtain ⟨-, hcell, hpop⟩ := hhead
  -- the source counts the placement before the pop; without a cell the two commute
  have hq' : ((s.pktPlaced i dg ⟨s.nextSeq, d.dg⟩ d.at d.wide 0).ring w).q = d :: ds := by
    rw [pktPlaced_ring]
    exact hq
  rw [pop_plain hq' hcell, pktPlaced_ring, ← pktPlaced_setRing, ← pop_plain hq hcell]
  have hbump := hpop.bumpSeq
  rw [pop_nextSeq] at hbump
  have hz : out { s.pop w with nextSeq := s.nextSeq + 1 } s.nextSeq = 0 :=
    hpop.outSeq s.nextSeq (by rw [pop_nextSeq])
  have hnext : s.nextSeq < nextSeq { s.pop w with nextSeq := s.nextSeq + 1 } :=
    Nat.lt_succ_self _
  have hwait : ∀ r ∈ redo { s.pop w with nextSeq := s.nextSeq + 1 }, r.seq ≠ s.nextSeq := by
    intro r hr
    have := hpop.redoSeq r hr
    rw [pop_nextSeq] at this
    exact Nat.ne_of_lt this
  generalize ({ s.pop w with nextSeq := s.nextSeq + 1 } : Snd) = u at hbump hz hnext hwait ⊢
  refine hbump.pktPlaced hnext hwait (fun _ => hm) ?_ (fun hne => absurd rfl hne)
    fun _ => ⟨rfl, hz⟩
  have ht := hbump.total
  have hun : (counted u i ⟨s.nextSeq, d.dg⟩ 0).unplaced = u.unplaced := by
    funext e
    exact hbump.unplaced_other (fun hne => absurd rfl hne) (fun _ => hz) (Or.inr rfl)
  rw [if_pos hz, hun]
  omega

/-! ### Hand-backs -/

/-- Taking back the newest entry of a seq takes it from what it no longer counts for. -/
lemma takeBack_countP (hf : es.find? (fun e => e.seq == x) = some e) (P : Entry → Bool)
    (hP : P { e with cell := 0, out := false } = false) :
    (takeBack x es).countP P + (if P e then 1 else 0) = es.countP P := by
  induction es with
  | nil => simp at hf
  | cons a es ih =>
    unfold takeBack
    rw [find?_cons] at hf
    by_cases ha : (a.seq == x) = true
    · rw [ha] at hf
      simp only [Option.some.injEq] at hf
      subst hf
      rw [if_pos ha, countP_cons, countP_cons, hP]
      rfl
    have ha' : (a.seq == x) = false := by simpa using ha
    rw [ha'] at hf
    have := ih hf
    rw [if_neg ha, countP_cons, countP_cons]
    omega

/-- Its reference, ... -/
lemma takeBack_count (hf : es.find? (fun e => e.seq == x) = some e) (c : Nat) (hc : c ≠ 0) :
    (takeBack x es).countP (·.cell == c) + (if e.cell = c then 1 else 0) =
      es.countP (·.cell == c) := by
  rw [← takeBack_countP hf (·.cell == c) (by simpa using Ne.symm hc)]
  simp

/-- ... and its placement. -/
lemma takeBack_holds (hf : es.find? (fun e => e.seq == x) = some e) (he : holds p x e = true)
    (y : Nat) :
    (takeBack x es).countP (holds p y) + (if y = x then 1 else 0) = es.countP (holds p y) := by
  have hseq : e.seq = x := by simpa using find?_some hf
  have hy : holds p y e = true ↔ y = x := by
    refine ⟨fun h => ?_, fun h => h ▸ he⟩
    simp only [holds, Bool.and_eq_true, beq_iff_eq] at h
    exact h.2.symm.trans hseq
  rw [← takeBack_countP hf (holds p y) (by simp [holds])]
  simp only [hy]

/-- Every entry it leaves has the seq and the cell it had, or no cell. -/
lemma mem_takeBack {a : Entry} (ha : a ∈ takeBack x es) :
    ∃ b ∈ es, a.seq = b.seq ∧ (a.cell = b.cell ∨ a.cell = 0) := by
  induction es with
  | nil => simp [takeBack] at ha
  | cons b es ih =>
    unfold takeBack at ha
    split at ha
    · rcases mem_cons.mp ha with rfl | ha
      · exact ⟨b, mem_cons_self .., rfl, Or.inr rfl⟩
      · exact ⟨a, mem_cons_of_mem _ ha, rfl, Or.inl rfl⟩
    rcases mem_cons.mp ha with rfl | ha
    · exact ⟨a, mem_cons_self .., rfl, Or.inl rfl⟩
    · obtain ⟨b', hb', h1⟩ := ih ha
      exact ⟨b', mem_cons_of_mem _ hb', h1⟩

lemma length_takeBack (x : Nat) (es : List Entry) : (takeBack x es).length = es.length := by
  induction es with
  | nil => rfl
  | cons b es ih =>
    unfold takeBack
    split
    · rfl
    · rw [length_cons, length_cons, ih]

/-- The entry of a placement its carrier hands back gives its reference to the operation; the
placement is no longer in the records, and still counted. -/
lemma takeRec (h : Ledger p s hand k) {i x : Nat} (hl : s.lanes[i]? = some l)
    (hf : l.recFind x = some e) (he : holds p x e = true) :
    Ledger p (withRecs s i l (takeBack x l.recs)) (e.cell :: hand) k ∧
    (laneCount (holds p x) (withRecs s i l (takeBack x l.recs)).lanes : Int) + 1 ≤ s.out x := by
  have hmem := mem_of_getElem? hl
  have hemem : e ∈ l.recs := mem_of_find?_eq_some hf
  refine ⟨h.setRecs hl _ _ (fun c hc => ?_) (fun a ha h0 => ?_) (fun a ha => ?_) ?_ (fun y => ?_)
    (fun hm => ⟨fun a ha => ?_, fun c hc => ?_⟩), ?_⟩
  · have := takeBack_count hf c hc
    rw [count_cons]
    simp only [beq_iff_eq]
    omega
  · obtain ⟨b, hb, hseq, hcell⟩ := mem_takeBack ha
    rw [hcell.resolve_right h0, hseq]
    exact h.ownRec l hmem b hb (hcell.resolve_right h0 ▸ h0)
  · obtain ⟨b, hb, hseq, -⟩ := mem_takeBack ha
    rw [hseq]
    exact h.recSeq l hmem b hb
  · rw [length_takeBack]
    exact h.recLen l hmem
  · have h1 := takeBack_holds hf he y
    have h2 := h.held y
    omega
  · obtain ⟨b, hb, -, hcell⟩ := mem_takeBack ha
    rcases hcell with hcell | hcell
    · rw [hcell]
      exact (h.plain hm).2.1 l hmem b hb
    · exact hcell
  · rcases mem_cons.mp hc with rfl | hc
    · exact (h.plain hm).2.1 l hmem e hemem
    · exact (h.plain hm).2.2.2.1 c hc
  have h1 := takeBack_holds hf he x
  have h2 := laneCount_set (holds p x) { l with recs := takeBack x l.recs } hl
  have h3 := h.held x
  rw [if_pos rfl] at h1
  unfold withRecs
  dsimp only at h2 ⊢
  omega

/-- The seqs with a placement that may have left, after one of `x` came back. -/
lemma sentSeqs_back (hx : x < s.nextSeq) (hnext : s'.nextSeq = s.nextSeq)
    (hout : ∀ y, s'.out y = s.out y + if y = x then -1 else 0) (hge : 1 ≤ s.out x) :
    s'.sentSeqs.card + (if s.out x = 1 then 1 else 0) = s.sentSeqs.card := by
  have hmem : x ∈ s.sentSeqs := by
    simp only [sentSeqs, Finset.mem_filter, Finset.mem_range]
    exact ⟨hx, by omega⟩
  by_cases hone : s.out x = 1
  · have herase : s'.sentSeqs = s.sentSeqs.erase x := by
      ext y
      simp only [sentSeqs, Finset.mem_filter, Finset.mem_range, Finset.mem_erase, hnext, hout]
      by_cases hyx : y = x
      · subst hyx
        simp only [if_true, ne_eq, not_true_eq_false, false_and, iff_false, not_and]
        omega
      · simp [hyx]
    rw [if_pos hone, herase, Finset.card_erase_add_one hmem]
  have hsame : s'.sentSeqs = s.sentSeqs := by
    ext y
    simp only [sentSeqs, Finset.mem_filter, Finset.mem_range, hnext, hout]
    by_cases hyx : y = x
    · subst hyx
      simp only [if_true]
      omega
    · simp [hyx]
  rw [if_neg hone, hsame, Nat.add_zero]

/-- One placement of seq `x`, with cell `c`, was handed back; it leaves Sent if no other may have
left. -/
def backed (s : Snd) (x c n m : Nat) : Snd :=
  { s with backs := x :: s.backs, ctr.sent := n, copies := m
           pool := if c = 0 then s.pool
             else s.pool.modify c fun k => { k with pc := k.pc - 1 } }

lemma back (h : Ledger p s hand k) {x c n m k' : Nat} (hx : x < s.nextSeq)
    (hown : c ≠ 0 → 0 < s.uses hand c ∧ (s.pool.val c).seq = x) (hrace : c = 0 → p.mode ≠ .race)
    (hslack : (laneCount (holds p x) s.lanes : Int) + 1 ≤ s.out x)
    (hn : n + (if s.out x = 1 then 1 else 0) = s.ctr.sent)
    (htotal : n + s.ctr.drops + s.tx.q.countP (backed s x c n m).unplaced + s.txBig.q.length +
      s.redo.length + k' = s.log.length) : Ledger p (backed s x c n m) hand k' := by
  have hge : 1 ≤ s.out x := by omega
  have hout : ∀ y, (backed s x c n m).out y = s.out y + if y = x then -1 else 0 := by
    intro y
    have hback : (backed s x c n m).out y = s.out y - if x = y then 1 else 0 :=
      out_back y x rfl rfl
    rw [hback]
    by_cases hy : x = y
    · rw [if_pos hy, if_pos hy.symm]
      omega
    · rw [if_neg hy, if_neg (fun hh => hy hh.symm)]
      omega
  obtain ⟨hpool, hcell⟩ := shift_pool h.pool c (fun k => { k with pc := k.pc - 1 }) (-1)
    fun _ => rfl
  refine h.recount x c (-1) rfl rfl rfl rfl rfl hpool (fun y => (hcell y).1) (fun y => (hcell y).2)
    hout (h.own_iff hown hrace) (fun h0 => (hown h0).1) hx (fun r hr heq => ?_) (by omega)
    (fun hm => ?_) ?_ htotal
  · have := h.redoOut r hr
    rw [heq] at this
    omega
  · have := (h.plain hm).2.2.2.2 x
    omega
  have hcard : (backed s x c n m).sentSeqs.card + (if s.out x = 1 then 1 else 0) =
      s.sentSeqs.card := sentSeqs_back hx rfl hout hge
  have hs := h.sent
  change n = (backed s x c n m).sentSeqs.card
  omega

/-- The queued descriptor of a cell whose last placement came back has none now. -/
lemma unplaced_back (h : Ledger p s hand k) {x c n m : Nat} (h0 : c ≠ 0)
    (hown : 0 < s.uses hand c ∧ (s.pool.val c).seq = x) (hge : 1 ≤ s.out x) :
    s.tx.q.countP s.unplaced + (if s.out x = 1 then s.tx.q.countP (·.cell == c) else 0) =
      s.tx.q.countP (backed s x c n m).unplaced := by
  have hpc : (s.pool.val c).pc = s.out x := by
    have := h.pcOut c h0 hown.1
    rwa [hown.2] at this
  have hother : ∀ d, d.cell ≠ c → (backed s x c n m).unplaced d = s.unplaced d := by
    intro d hd
    unfold unplaced pc backed
    rw [if_neg h0, modify_val, update_of_ne hd]
  have hself : ∀ d ∈ s.tx.q, d.cell = c →
      s.unplaced d = decide (s.out x ≤ 0) ∧
      (backed s x c n m).unplaced d = decide (s.out x - 1 ≤ 0) := by
    intro d hd hdc
    have hseq : (d.seq == 0) = false := by
      simpa using fun hs => h0 (hdc ▸ (h.txCell d hd).mp hs)
    unfold unplaced pc backed
    rw [hdc, if_neg h0, modify_val, update_self, hpc, hseq]
    exact ⟨rfl, rfl⟩
  by_cases hone : s.out x = 1
  · rw [if_pos hone]
    refine countP_split _ (fun d _ hne => ?_) fun d hd heq => ?_
    · exact (hother d (by simpa using hne)).symm
    · obtain ⟨h1, h2⟩ := hself d hd (by simpa using heq)
      rw [h1, h2, hone]
      exact ⟨by decide, by decide⟩
  rw [if_neg hone, Nat.add_zero]
  refine countP_congr fun d hd => ?_
  by_cases hdc : d.cell = c
  · obtain ⟨h1, h2⟩ := hself d hd hdc
    rw [h1, h2, decide_eq_true_eq, decide_eq_true_eq]
    omega
  · rw [hother d hdc]

/-- **A hand-back of a placement a record holds.** -/
lemma pktUnsent (h : Ledger p s [] k) (hl : s.lanes[i]? = some l) (hf : l.recFind f.seq = some e)
    (he : holds p f.seq e = true) (t : Int) : Ledger p (s.pktUnsent i f t) [] k := by
  have hmem := mem_of_getElem? hl
  have hemem : e ∈ l.recs := mem_of_find?_eq_some hf
  have heseq : e.seq = f.seq := by simpa using find?_some hf
  have hx : f.seq < s.nextSeq := heseq ▸ h.recSeq l hmem e hemem
  have hrace : e.cell = 0 → p.mode ≠ .race := by
    intro h0 hm
    simp [holds, h0, hm] at he
  obtain ⟨htake, hslack⟩ := h.takeRec hl hf he
  have hge : 1 ≤ s.out f.seq := by omega
  have hhanded : handed l f t = ⟨f.seq, f.dg, e.at, e.cell, e.wide⟩ := by
    unfold handed
    rw [hf]
  have hstep : s.pktUnsent i f t =
      (s.takeEntry i l f.seq).uncount ⟨f.seq, f.dg, e.at, e.cell, e.wide⟩ := by
    unfold Snd.pktUnsent
    rw [hl]
    dsimp only
    rw [hhanded]
  rw [hstep]
  -- the state the record gave the entry up in
  generalize hu : withRecs s i l (takeBack f.seq l.recs) = u at htake hslack
  have htakeEq : s.takeEntry i l f.seq = { u with backs := f.seq :: u.backs } := by
    rw [← hu]
    rfl
  have hout : s.out = u.out := by
    rw [← hu]
    rfl
  have hnext : u.nextSeq = s.nextSeq := by
    rw [← hu]
    rfl
  rw [hout] at hge hslack
  rw [htakeEq]
  have hown : e.cell ≠ 0 → 0 < u.uses [e.cell] e.cell ∧ (u.pool.val e.cell).seq = f.seq := by
    intro h0
    refine ⟨by rw [uses_cons, if_pos rfl]; omega, ?_⟩
    rw [← hu]
    exact heseq ▸ h.ownRec l hmem e hemem h0
  have hsent : u.ctr.sent = u.sentSeqs.card := htake.sent
  have hpos : 1 ≤ u.ctr.sent := by
    have hin : f.seq ∈ u.sentSeqs := by
      simp only [sentSeqs, Finset.mem_filter, Finset.mem_range]
      exact ⟨by omega, by omega⟩
    have := Finset.card_pos.mpr ⟨_, hin⟩
    omega
  -- a returned datagram that left the queue waits in the redo list
  have hredo : u.out f.seq = 1 → (∀ d ∈ u.tx.q, d.seq ≠ f.seq + 1) → ∀ m,
      Ledger p (backed u f.seq e.cell (u.ctr.sent - 1) m) [e.cell] (k + 1) →
      Ledger p ((backed u f.seq e.cell (u.ctr.sent - 1) m).pktRedo
        ⟨f.seq, f.dg, e.at, e.cell, e.wide⟩) [] k := by
    intro hone htx m hb
    refine hb.pktRedo (fun h0 => ?_) ?_ (fun r hr heq => ?_) htx (by rw [← hnext] at hx; exact hx)
      (fun hm h0 => hrace h0 hm)
    · unfold backed
      rw [if_neg h0, modify_val, update_self]
      exact (hown h0).2
    · have hback : (backed u f.seq e.cell (u.ctr.sent - 1) m).out f.seq =
          u.out f.seq - if f.seq = f.seq then 1 else 0 := out_back _ _ rfl rfl
      rw [hback, if_pos rfl, hone]
      rfl
    have := htake.redoOut r hr
    dsimp only at heq
    rw [heq] at this
    omega
  unfold uncount
  dsimp only
  by_cases h0 : e.cell = 0
  · rw [if_pos h0]
    have hone : u.out f.seq = 1 := by
      have := (htake.plain (hrace h0)).2.2.2.2 f.seq
      omega
    have hun : (backed u f.seq e.cell (u.ctr.sent - 1) u.copies).unplaced = u.unplaced := by
      unfold backed unplaced pc
      simp [h0]
    have hb : Ledger p (backed u f.seq e.cell (u.ctr.sent - 1) u.copies) [e.cell] (k + 1) := by
      refine htake.back (by omega) hown hrace hslack (by rw [if_pos hone]; omega) ?_
      have ht := htake.total
      rw [hun]
      omega
    have hfin := hredo hone (fun d hd => by
      rw [(htake.plain (hrace h0)).1 d hd]
      omega) u.copies hb
    simpa only [backed, h0, if_true] using hfin
  rw [if_neg h0]
  have hpc : (u.pool.val e.cell).pc = u.out f.seq := by
    have := htake.pcOut e.cell h0 (hown h0).1
    rwa [(hown h0).2] at this
  have hval : ((u.pool.modify e.cell fun k => { k with pc := k.pc - 1 }).val e.cell).pc =
      u.out f.seq - 1 := by
    rw [modify_val, update_self, hpc]
  have hqv : ((u.pool.modify e.cell fun k => { k with pc := k.pc - 1 }).val e.cell).queued =
      (u.pool.val e.cell).queued := by
    rw [modify_val, update_self]
  have hcount := fun n m => htake.unplaced_back (n := n) (m := m) h0 (hown h0) hge
  have hq := htake.queued e.cell h0 (hown h0).1
  have honce := htake.txOnce e.cell h0
  have ht := htake.total
  rw [hval, hqv]
  split
  · -- another placement may have left
    next hmore =>
    have hb : Ledger p (backed u f.seq e.cell u.ctr.sent (u.copies - 1)) [e.cell] k := by
      have hc := hcount u.ctr.sent (u.copies - 1)
      rw [if_neg (by omega)] at hc
      refine htake.back (by omega) hown hrace hslack (by rw [if_neg (by omega), Nat.add_zero]) ?_
      omega
    have hfin := hb.unref
    simpa only [backed, if_neg h0] using hfin
  next hlast =>
  have hone : u.out f.seq = 1 := by omega
  have hc := hcount (u.ctr.sent - 1)
  simp only [if_pos hone] at hc
  split
  · -- its descriptor is still queued
    next hqueued =>
    have hin := hq.mp hqueued
    have hb : Ledger p (backed u f.seq e.cell (u.ctr.sent - 1) u.copies) [e.cell] k := by
      refine htake.back (by omega) hown hrace hslack (by rw [if_pos hone]; omega) ?_
      have := hc u.copies
      omega
    have hfin := hb.unref
    simpa only [backed, if_neg h0] using hfin
  next hgone =>
  have hnone : u.tx.q.countP (·.cell == e.cell) = 0 := by
    by_contra hne
    exact hgone (hq.mpr (Nat.pos_of_ne_zero hne))
  have hb : Ledger p (backed u f.seq e.cell (u.ctr.sent - 1) u.copies) [e.cell] (k + 1) := by
    refine htake.back (by omega) hown hrace hslack (by rw [if_pos hone]; omega) ?_
    have := hc u.copies
    omega
  have hfin := hredo hone (fun d hd hds => ?_) u.copies hb
  · simpa only [backed, if_neg h0] using hfin
  -- a descriptor of that seq would have its cell
  have hdc : d.cell ≠ 0 := fun hz => by
    have := (htake.txCell d hd).mpr hz
    omega
  have hsame : d.cell = e.cell := by
    refine htake.ownInj _ _ hdc h0 (u.uses_tx [e.cell] hd) (hown h0).1 ?_
    have := htake.ownTx d hd hdc
    rw [(hown h0).2]
    omega
  have : 0 < u.tx.q.countP (·.cell == e.cell) :=
    countP_pos_iff.mpr ⟨d, hd, by simp [hsame]⟩
  omega

/-! ### Dead lanes, new lanes, new datagrams -/

/-- The operation drops the references it holds on a list of cells. -/
lemma unrefAll (es : List Entry) (h : Ledger p s (es.map Entry.cell ++ hand) k) :
    Ledger p { s with pool := es.foldl (fun pool e => pool.unref e.cell) s.pool } hand k := by
  induction es generalizing s with
  | nil => exact h
  | cons e es ih => exact ih h.unref

section

variable (h : Ledger p s hand k)
include h

/-- The record of a lane that died long ago gives up its cells. -/
lemma recRelease (i : Nat) : Ledger p (s.recRelease i) hand k := by
  unfold Snd.recRelease
  split
  · exact h
  next l hl =>
  have hmem := mem_of_getElem? hl
  have hmap : ∀ e ∈ l.recs.map (fun e => { e with cell := 0 }), e.cell = 0 ∧ ∃ e' ∈ l.recs,
      e.seq = e'.seq := by
    intro e he
    obtain ⟨e', he', rfl⟩ := mem_map.mp he
    exact ⟨rfl, e', he', rfl⟩
  have hrel : Ledger p (withRecs s i l (l.recs.map fun e => { e with cell := 0 }))
      (l.recs.map Entry.cell ++ hand) k := by
    refine h.setRecs hl _ _ (fun c hc => ?_) (fun e he h0 => absurd (hmap e he).1 h0)
      (fun e he => ?_) ?_ (fun x => ?_) (fun hm => ⟨fun e he => (hmap e he).1, fun c hc => ?_⟩)
    · have hnone : (l.recs.map fun e => { e with cell := 0 }).countP (·.cell == c) = 0 :=
        countP_eq_zero.mpr fun e he hec =>
          hc ((by simpa using hec : e.cell = c).symm.trans (hmap e he).1)
      have hcells : (l.recs.map Entry.cell).count c = l.recs.countP (·.cell == c) := by
        rw [List.count, countP_map]
        rfl
      rw [hnone, count_append, hcells]
      omega
    · obtain ⟨-, e', he', heq⟩ := hmap e he
      rw [heq]
      exact h.recSeq l hmem e' he'
    · rw [length_map]
      exact h.recLen l hmem
    · -- an entry without its cell holds no placement of a race session
      have hle : (l.recs.map fun e => { e with cell := 0 }).countP (holds p x) ≤
          l.recs.countP (holds p x) := by
        rw [countP_map]
        refine countP_mono_left fun e _ he => ?_
        simp only [holds, Function.comp_apply, Bool.and_eq_true, Bool.or_eq_true,
          bne_self_eq_false, Bool.false_eq_true, or_false] at he ⊢
        exact ⟨⟨he.1.1, Or.inl he.1.2⟩, he.2⟩
      have := h.held x
      omega
    rcases mem_append.mp hc with hc | hc
    · obtain ⟨e, he, rfl⟩ := mem_map.mp hc
      exact (h.plain hm).2.1 l hmem e he
    · exact (h.plain hm).2.2.2.1 c hc
  exact hrel.unrefAll l.recs

lemma pktLaneGone (i : Nat) : Ledger p (s.pktLaneGone i) hand k := by
  have hdying : ∀ {u : Snd} (ds : List Nat), Ledger p u hand k →
      Ledger p { u with dying := ds } hand k :=
    fun ds hu => hu.same rfl rfl rfl rfl rfl rfl rfl rfl rfl rfl
  unfold Snd.pktLaneGone
  split
  · exact h
  split
  · exact hdying _ (hdying _ (h.recRelease _))
  · exact hdying _ h

/-- A lane without a record is attached. -/
lemma attach (h0 : l.recs = []) : Ledger p { s with lanes := s.lanes ++ [l] } hand k := by
  have hcount : ∀ P, laneCount P (s.lanes ++ [l]) = laneCount P s.lanes := by
    intro P
    unfold laneCount
    rw [map_append, sum_append]
    simp [h0]
  have hmem : ∀ {P : List Entry → Prop}, P [] → (∀ x ∈ s.lanes, P x.recs) →
      ∀ x ∈ s.lanes ++ [l], P x.recs := by
    intro P hnil hall x hx
    rcases mem_append.mp hx with hx | hx
    · exact hall x hx
    · rw [mem_singleton.mp hx, h0]
      exact hnil
  have huses : uses { s with lanes := s.lanes ++ [l] } hand = s.uses hand := by
    funext c
    unfold uses refs
    rw [hcount]
  refine { h with
    pool := by rw [huses]; exact h.pool
    ownRec := hmem (P := fun es => ∀ e ∈ es, e.cell ≠ 0 → (s.pool.val e.cell).seq = e.seq)
      (fun _ he => absurd he not_mem_nil) h.ownRec
    ownInj := by rw [huses]; exact h.ownInj
    pcOut := by rw [huses]; exact h.pcOut
    queued := by rw [huses]; exact h.queued
    held := fun x => by rw [hcount]; exact h.held x
    recLen := hmem (P := fun es => es.length ≤ Dgram.recLen) (Nat.zero_le _) h.recLen
    recSeq := hmem (P := fun es => ∀ e ∈ es, e.seq < s.nextSeq)
      (fun _ he => absurd he not_mem_nil) h.recSeq
    plain := fun hm => ?_ }
  obtain ⟨h1, h2, h3, h4, h5⟩ := h.plain hm
  exact ⟨h1, hmem (P := fun es => ∀ e ∈ es, e.cell = 0) (fun _ he => absurd he not_mem_nil) h2,
    h3, h4, h5⟩

/-- A datagram is accepted. -/
lemma accept (body : List UInt8) : Ledger p { s with log := s.log ++ [body] } hand (k + 1) := by
  refine { h with total := ?_ }
  have ht := h.total
  rw [length_append, length_singleton]
  change _ + (s.tx.q.countP s.unplaced) + _ + _ + _ = _
  dsimp only
  omega

end

/-- An accepted datagram is queued. -/
lemma append (h : Ledger p s hand (k + 1)) (w : Which) (h0 : d.seq = 0) (hc : d.cell = 0) :
    Ledger p (s.append w d) hand k := by
  have ht := h.total
  cases w with
  | big =>
    refine { h with total := ?_, big := fun e he => ?_ }
    · change _ + (s.tx.q.countP s.unplaced) + (s.txBig.q ++ [d]).length + _ + _ = _
      rw [length_append, length_singleton]
      dsimp only [Snd.append, setRing]
      omega
    rcases mem_append.mp he with he | he
    · exact h.big e he
    · rw [mem_singleton.mp he]
      exact ⟨h0, hc⟩
  | tx =>
    have hcount : ∀ c, c ≠ 0 → (s.tx.q ++ [d]).countP (·.cell == c) = s.tx.q.countP (·.cell == c) := by
      intro c hc'
      rw [countP_append, countP_singleton,
        if_neg (by simp only [hc, beq_iff_eq]; exact fun hh => hc' hh.symm), Nat.add_zero]
    have huses : ∀ c, c ≠ 0 → (s.append .tx d).uses hand c = s.uses hand c := by
      intro c hc'
      have := hcount c hc'
      change (s.tx.q ++ [d]).countP (·.cell == c) + _ + _ + _ = _
      rw [this]
      rfl
    have hmem : ∀ {P : Desc → Prop}, P d → (∀ e ∈ s.tx.q, P e) → ∀ e ∈ (s.append .tx d).tx.q, P e := by
      intro P hd hall e he
      rcases mem_append.mp he with he | he
      · exact hall e he
      · rw [mem_singleton.mp he]
        exact hd
    refine { h with
      total := ?_
      txCell := hmem ⟨fun _ => hc, fun _ => h0⟩ h.txCell
      pool := h.pool.congr huses
      ownTx := hmem (fun hne => absurd hc hne) h.ownTx
      ownInj := fun c c' hz hz' hu hu' => h.ownInj c c' hz hz' (huses c hz ▸ hu) (huses c' hz' ▸ hu')
      pcOut := fun c hz hu => h.pcOut c hz (huses c hz ▸ hu)
      queued := fun c hz hu => ?_
      txOnce := fun c hz => ?_
      redoTx := fun r hr => hmem (by rw [h0]; omega) (h.redoTx r hr)
      txSeq := hmem (by rw [h0]; exact Nat.zero_le _) h.txSeq
      plain := fun hm => ⟨hmem h0 (h.plain hm).1, (h.plain hm).2⟩ }
    · have hun : s.unplaced d = true := by simp [unplaced, h0]
      change _ + ((s.tx.q ++ [d]).countP s.unplaced) + _ + _ + _ = _
      rw [countP_append, countP_singleton, hun, if_pos rfl]
      dsimp only [Snd.append, setRing]
      omega
    · change _ ↔ 0 < (s.tx.q ++ [d]).countP (·.cell == c)
      rw [hcount c hz]
      exact h.queued c hz (huses c hz ▸ hu)
    · change (s.tx.q ++ [d]).countP (·.cell == c) ≤ 1
      rw [hcount c hz]
      exact h.txOnce c hz

/-- MaxAge's clock starts: only enqueue times change. -/
lemma pktAgeStart (h : Ledger p s hand k) (t : Int) : Ledger p (s.pktAgeStart t) hand k := by
  have hmem : ∀ {P : Desc → Prop} {l : List Desc},
      (∀ d u, P d → P { d with «at» := u }) → (∀ d ∈ l, P d) →
      ∀ d ∈ l.map (fun d : Desc => { d with «at» := max d.at t }), P d := by
    intro P l hat hall d hd
    obtain ⟨d', hd', rfl⟩ := mem_map.mp hd
    exact hat d' _ (hall d' hd')
  have hcount : ∀ P : Desc → Bool, (∀ d u, P { d with «at» := u } = P d) → ∀ l : List Desc,
      (l.map fun d : Desc => { d with «at» := max d.at t }).countP P = l.countP P := by
    intro P hat l
    rw [countP_map]
    exact countP_congr fun d _ => by rw [Function.comp_apply, hat]
  have htx : ∀ c, (s.pktAgeStart t).tx.q.countP (·.cell == c) = s.tx.q.countP (·.cell == c) :=
    fun c => hcount (·.cell == c) (fun _ _ => rfl) _
  have huses : (s.pktAgeStart t).uses hand = s.uses hand := by
    funext c
    unfold uses refs
    rw [htx]
    rfl
  refine { h with
    total := ?_
    big := hmem (fun _ _ => id) h.big
    txCell := hmem (fun _ _ => id) h.txCell
    pool := by rw [huses]; exact h.pool
    ownTx := hmem (fun _ _ => id) h.ownTx
    ownInj := by rw [huses]; exact h.ownInj
    pcOut := by rw [huses]; exact h.pcOut
    queued := by rw [huses]; intro c hz hu; rw [htx]; exact h.queued c hz hu
    txOnce := fun c hz => by rw [htx]; exact h.txOnce c hz
    redoTx := fun r hr => hmem (fun _ _ => id) (h.redoTx r hr)
    txSeq := hmem (fun _ _ => id) h.txSeq
    plain := fun hm => ⟨hmem (fun _ _ => id) (h.plain hm).1, (h.plain hm).2⟩ }
  have hun : (s.pktAgeStart t).tx.q.countP (s.pktAgeStart t).unplaced =
      s.tx.q.countP s.unplaced := hcount s.unplaced (fun _ _ => rfl) _
  have hlen : (s.pktAgeStart t).txBig.q.length = s.txBig.q.length := length_map ..
  rw [hun, hlen]
  exact h.total

/-! ### Moves, events and runs -/

/-- **One move keeps the books.** -/
lemma move (h : Ledger p s [] k) (hmove : Move p now s s') : Ledger p s' [] k := by
  -- a head leaves: in nobody's books unless a placement of it may have left
  have hpop : ∀ {w : Which} {d : Desc} {ds : List Desc}, (s.ring w).q = d :: ds →
      Ledger p (s.pop w) [] (k + if s.unplaced d then 1 else 0) := by
    intro w d ds hq
    cases w with
    | tx => exact h.popTx hq
    | big =>
      have h0 := (h.big d (by rw [ring_big] at hq; exact hq ▸ mem_cons_self ..)).1
      have hun : s.unplaced d = true := by simp [unplaced, h0]
      rw [hun, if_pos rfl]
      exact h.popBig hq
  cases hmove with
  | sent w hw =>
    rcases hq : (s.ring w).q with _ | ⟨d, ds⟩
    · simp [headPlaced, hq] at hw
    · rw [headPlaced_cons hq] at hw
      have := hpop hq
      rwa [show s.unplaced d = false by simpa using hw, if_neg (by decide), Nat.add_zero] at this
  | drop w b d ds hq hw =>
    have hun : s.unplaced d = true := by
      rcases hw with hm | hw
      · cases w with
        | tx =>
          have h0 := (h.plain hm).1 d (by rw [ring_tx] at hq; exact hq ▸ mem_cons_self ..)
          simp [unplaced, h0]
        | big =>
          have h0 := (h.big d (by rw [ring_big] at hq; exact hq ▸ mem_cons_self ..)).1
          simp [unplaced, h0]
      · rw [headPlaced_cons hq] at hw
        simpa using hw
    have := hpop hq
    rw [hun, if_pos rfl] at this
    exact this.count b
  | headRedo d ds hm hq hp h0 =>
    have hun : s.unplaced d = true := by
      have : s.headPlaced .tx = !s.unplaced d := headPlaced_cons hq
      rw [this] at hp
      simpa using hp
    exact h.raceRedoHead hm hq hun h0
  | redoDrop b => exact h.redoDrop b
  | redoPlace i dg => exact h.placeRedoHead i dg
  | place w i dg hne => exact h.placeHead hne w i dg
  | placeAt j i dg d hm hq hage => exact h.placeAt hm hq i dg
  | cursor i r hr ha =>
    have hrecs : (s.setCursor i r).lanes.map Lane.recs = s.lanes.map Lane.recs := by
      unfold setCursor
      refine ext_getElem? fun j => ?_
      rw [getElem?_map, getElem?_map, getElem?_modify]
      rcases s.lanes[j]? with _ | l
      · rfl
      · simp only [Option.map_some]
        split <;> rfl
    exact h.same rfl rfl rfl rfl rfl rfl hrecs rfl rfl rfl
  | raced => exact h.same rfl rfl rfl rfl rfl rfl rfl rfl rfl rfl
  | ageStart hoff => exact h.pktAgeStart now
  | fixFin i hdue =>
    unfold fixFin
    split
    · exact h
    · exact h.same rfl rfl rfl rfl rfl rfl rfl rfl rfl rfl
  | marks s' hk | shuts s' hk =>
    have hrecs := hk.recs
    rw [hk.rest] at hrecs ⊢
    exact h.same rfl rfl rfl rfl rfl rfl hrecs rfl rfl rfl
  | lost i => exact h.pktLaneGone i
  | attach l hr h0 => exact h.attach h0

lemma moves (h : Ledger p s [] k) (hmoves : Moves p now s s') : Ledger p s' [] k :=
  hmoves.inv (fun t => Ledger p t [] k) (fun _ _ hmove ht => ht.move hmove) h

end Ledger

/-- A carrier hands back only a placement its lane's record holds. -/
def HandsBack (p : Params) (s : Snd) : Ev → Prop
  | .unsent i f _ => ∃ l e, s.lanes[i]? = some l ∧ l.recFind f.seq = some e ∧ holds p f.seq e = true
  | _ => True

/-- **One event keeps the books.** -/
lemma Ledger.step (h : Ledger p s [] 0) (ev : Ev) (hb : HandsBack p s ev) :
    Ledger p (s.step p ev) [] 0 := by
  rcases step_cases p 0 s ev with ⟨body, t, pin, rfl⟩ | ⟨i, f, t, rfl⟩ | ⟨now, -, hmoves⟩
  · rcases writeTo_moves (p := p) 0 body t pin s with heq | ⟨-, -, -, s', hs', -, hq⟩
    · rw [show s.step p (.writeTo body t pin) = s from heq]
      exact h
    have hmid := (h.accept body).moves hs'
    change Ledger p (s.writeTo p body t pin).1 [] 0
    generalize (s.writeTo p body t pin).1 = u at hq
    cases hq with
    | dropped => exact hmid.count .queue
    | queued w wide => exact hmid.append w rfl rfl
  · obtain ⟨l, e, hl, hf, he⟩ := hb
    exact h.pktUnsent hl hf he t
  · exact h.moves hmoves

lemma Ledger.start (p : Params) : Ledger p (start p) [] 0 where
  total := rfl
  big d hd := absurd hd not_mem_nil
  txCell d hd := absurd hd not_mem_nil
  pool := ⟨fun c _ _ => rfl, fun c _ hc => absurd hc (lt_irrefl 0), nodup_nil, fun c =>
    ⟨fun hc => absurd hc not_mem_nil, fun hc => absurd (Nat.le_zero.mp hc.2.1) hc.1⟩⟩
  ownTx d hd := absurd hd not_mem_nil
  ownRec l hl := absurd hl not_mem_nil
  ownRedo r hr := absurd hr not_mem_nil
  ownInj c _ _ _ hc := absurd hc (lt_irrefl 0)
  pcOut c _ hc := absurd hc (lt_irrefl 0)
  pcNonneg _ := Int.le_refl 0
  queued c _ hc := absurd hc (lt_irrefl 0)
  txOnce _ _ := Nat.zero_le _
  redoOut r hr := absurd hr not_mem_nil
  redoNodup := nodup_nil
  redoTx r hr := absurd hr not_mem_nil
  held _ := Int.le_refl 0
  recLen l hl := absurd hl not_mem_nil
  txSeq d hd := absurd hd not_mem_nil
  recSeq l hl := absurd hl not_mem_nil
  redoSeq r hr := absurd hr not_mem_nil
  outSeq _ _ := rfl
  sent := by
    have hnone : (Snd.start p).sentSeqs = ∅ :=
      Finset.filter_eq_empty_iff.mpr fun x _ => lt_irrefl 0
    rw [hnone]
    rfl
  plain _ := ⟨fun d hd => absurd hd not_mem_nil, fun l hl => absurd hl not_mem_nil,
    fun r hr => absurd hr not_mem_nil, fun c hc => absurd hc not_mem_nil,
    fun _ => Int.zero_le_ofNat 1⟩
  race _ r hr := absurd hr not_mem_nil

/-- **The books in every reachable state.** -/
lemma Ledger.run (p : Params) (evs : List Ev)
    (hb : Along (Snd.step p) (HandsBack p) (Snd.start p) evs) :
    Ledger p (runFrom (Snd.step p) (Snd.start p) evs) [] 0 :=
  runFrom_along (fun s => Ledger p s [] 0) (Ledger.start p) (fun _ ev hev hs => hs.step ev hev) hb

/-- **The send-side identity.** In every state a packet session reaches by events whose hand-backs
are of placements a record holds, every datagram `WriteTo` accepted is counted in one place; and in
race every cell counts the placements of its datagram that were not handed back and those who
refer to it, and is free exactly when nobody does. -/
theorem pkt_send_identity (p : Params) (evs : List Ev)
    (hb : Along (Snd.step p) (HandsBack p) (Snd.start p) evs) :
    let s := runFrom (Snd.step p) (Snd.start p) evs
    s.ctr.sent + s.ctr.dropQueue + s.ctr.dropAge + s.ctr.dropTooLarge + s.ctr.dropNoPath +
      (s.tx.q.countP s.unplaced + s.txBig.q.countP s.unplaced) + s.redo.length = s.log.length ∧
    (p.mode = .race →
      (∀ c, 0 ≤ s.pc c) ∧
      (∀ c, c ≠ 0 → c ≤ s.pool.size →
        0 ≤ s.pool.refs c ∧
        s.pool.refs c = (s.tx.q.countP (·.cell == c) +
          (s.lanes.map fun l => l.recs.countP (·.cell == c)).sum +
          s.redo.countP (·.cell == c) : Nat) ∧
        (c ∈ s.pool.free ↔ s.pool.refs c = 0)) ∧
      s.pool.free.Nodup ∧
      (∀ d ∈ s.tx.q, d.seq ≠ 0 → s.pc d.cell = s.out (d.seq - 1)) ∧
      (∀ l ∈ s.lanes, ∀ e ∈ l.recs, e.cell ≠ 0 → s.pc e.cell = s.out e.seq) ∧
      (∀ r ∈ s.redo, s.pc r.cell = s.out r.seq)) := by
  have h := Ledger.run p evs hb
  generalize runFrom (Snd.step p) (Snd.start p) evs = s at h
  have huses : ∀ c, s.uses [] c = s.refs c := fun c => by rw [uses, count_nil, Nat.add_zero]
  refine ⟨?_, fun hm => ⟨h.pcNonneg, fun c h0 hc => ?_, h.pool.nodup, fun d hd h0 => ?_,
    fun l hl e he h0 => ?_, fun r hr => ?_⟩⟩
  · have hbig : s.txBig.q.countP s.unplaced = s.txBig.q.length :=
      countP_eq_length.mpr fun d hd => by simp [unplaced, (h.big d hd).1]
    have ht := h.total
    unfold Ctr.drops at ht
    omega
  · have hrefs := h.pool.refs_eq c h0 hc
    rw [huses] at hrefs
    refine ⟨by omega, hrefs, ?_⟩
    rw [h.pool.free_iff c, huses]
    exact ⟨fun hh => by omega, fun hh => ⟨h0, hc, by omega⟩⟩
  · have hcell : d.cell ≠ 0 := fun hz => h0 ((h.txCell d hd).mpr hz)
    have hown := h.ownTx d hd hcell
    rw [h.pcOut d.cell hcell (s.uses_tx [] hd), ← hown, Nat.add_sub_cancel]
  · rw [h.pcOut e.cell h0 (s.uses_rec [] hl he), h.ownRec l hl e he h0]
  · have hcell := h.race hm r hr
    rw [h.pcOut r.cell hcell (s.uses_redo [] hr), h.ownRedo r hr hcell]

/-- A race session with two datagram lanes: a datagram is placed on both, and both hand it back. -/
def demoBacks : List Ev :=
  [.attach true true true, .attach true true true, .routing [true, true] true 0,
    .writeTo [1, 2, 3] 0 ⟨true, false, 0, true, true, false⟩,
    .fill 0 ⟨1, true, false, true, false, 1200, 64, none, 0, true, []⟩,
    .fill 1 ⟨2, true, false, true, false, 1200, 64, none, 0, true, []⟩,
    .unsent 0 ⟨0, ⟨0, [1, 2, 3]⟩⟩ 3, .unsent 1 ⟨0, ⟨0, [1, 2, 3]⟩⟩ 4, .laneGone 0 5]

theorem pkt_send_identity_demo :
    let s := runFrom (Snd.step ⟨.race, false, 1200, 1048576, 10, 0, 100⟩)
      (Snd.start ⟨.race, false, 1200, 1048576, 10, 0, 100⟩) demoBacks
    s.redo.length = 1 ∧ s.ctr.sent + s.ctr.dropQueue + s.ctr.dropAge + s.ctr.dropTooLarge +
      s.ctr.dropNoPath + (s.tx.q.countP s.unplaced + s.txBig.q.countP s.unplaced) +
      s.redo.length = s.log.length := by
  have hb : Along (step ⟨.race, false, 1200, 1048576, 10, 0, 100⟩)
      (HandsBack ⟨.race, false, 1200, 1048576, 10, 0, 100⟩)
      (start ⟨.race, false, 1200, 1048576, 10, 0, 100⟩) demoBacks :=
    ⟨trivial, trivial, trivial, trivial, trivial, trivial, ⟨_, _, rfl, rfl, rfl⟩, ⟨_, _, rfl, rfl, rfl⟩,
      trivial, trivial⟩
  exact ⟨by decide +kernel, (pkt_send_identity _ demoBacks hb).1⟩

end Snd

end Rendr.Dgram
