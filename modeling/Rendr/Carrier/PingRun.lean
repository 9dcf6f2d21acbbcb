import Rendr.Carrier.Ping

/-!
# PING bookkeeping under any peer

* `Core` — the records are in the order of the id counter, at most 32, their marks are of what was
  submitted, and a record that gave a sample is gone.
* `Dense` — on a stream carrier, which refuses no PING, the ids are consecutive.
* `Told` — what the carrier told the gauge is its present contribution, none once it ended.
* `Link` — a FIFO stream to a peer that answers the PINGs it read: the watermark is at most what the
  peer has read.
* `ping_bookkeeping` — all of it along every run, and `refused_skips`: a refused PING leaves a gap
  in the ids.
-/

namespace Rendr.Carrier.Pings

open List St

namespace St

variable {E : Env} {s : St}

/-! ### The gauge -/

/-- What the carrier told the gauge. -/
structure Told (s : St) : Prop where
  added : s.added = s.gContrib
  raised : s.raised = if s.gBacklog then 1 else 0
  ended : s.gEnded = true → s.gContrib = 0 ∧ s.gBacklog = false
  off : s.gauge = false → s.gContrib = 0 ∧ s.gBacklog = false
  fresh : s.started = false → s.gauge = false

lemma contribute_told (s : St) (c : Int) (h : s.added = s.gContrib) :
    s.contribute c = { s with added := c, gContrib := c } := by
  unfold contribute
  split
  · rw [h, add_sub_cancel]
  rename_i hc
  have hc : c = s.gContrib := by omega
  subst hc
  cases s
  dsimp only at h
  rw [h]

lemma setBacklog_told (s : St) (on : Bool) (h : s.raised = if s.gBacklog then 1 else 0) :
    s.setBacklog on = { s with raised := if on then 1 else 0, gBacklog := on } := by
  unfold setBacklog
  split
  next hne =>
    rw [h]
    cases hb : s.gBacklog <;> cases on
    · exact absurd hb.symm hne
    · rfl
    · rfl
    · exact absurd hb.symm hne
  next heq => rw [not_not.mp heq, ← h]

/-- **A report.** The gauge has been told the contribution and the backlog as they are now. -/
lemma Told.report (h : s.Told) (c : Int) (on : Bool) : (s.contribute c).setBacklog on =
    { s with added := c, gContrib := c, raised := if on then 1 else 0, gBacklog := on } := by
  rw [contribute_told s c h.added]
  exact setBacklog_told _ on h.raised

/-- The gauge reports change nothing but the reports. -/
lemma report_eq (s : St) (c : Int) (on : Bool) :
    ∃ a r c' b, (s.contribute c).setBacklog on =
      { s with added := a, raised := r, gContrib := c', gBacklog := b } := by
  unfold setBacklog contribute
  split <;> split <;> exact ⟨_, _, _, _, rfl⟩

lemma gaugeUpdate_eq (E : Env) (s : St) (rev : Int) :
    ∃ a r c b, s.gaugeUpdate E rev = { s with added := a, raised := r, gContrib := c, gBacklog := b } := by
  unfold gaugeUpdate
  split
  · exact ⟨_, _, _, _, rfl⟩
  · exact report_eq s _ _

lemma endGauge_eq (s : St) :
    ∃ a r c b, s.endGauge =
      { s with gEnded := true, added := a, raised := r, gContrib := c, gBacklog := b } := by
  unfold endGauge
  split
  next h => exact ⟨s.added, s.raised, s.gContrib, s.gBacklog, by rw [← h]⟩
  · split
    · exact ⟨_, _, _, _, rfl⟩
    · exact report_eq { s with gEnded := true } 0 false

/-- The reports and the flags that they depend on. -/
lemma Told.of_same (h : s.Told) {s' : St} (h1 : s'.added = s.added) (h2 : s'.gContrib = s.gContrib)
    (h3 : s'.raised = s.raised) (h4 : s'.gBacklog = s.gBacklog) (h5 : s'.gEnded = s.gEnded)
    (h6 : s'.gauge = s.gauge) (h7 : s'.started = s.started) : s'.Told where
  added := by rw [h1, h2]; exact h.added
  raised := by rw [h3, h4]; exact h.raised
  ended := by rw [h5, h2, h4]; exact h.ended
  off := by rw [h6, h2, h4]; exact h.off
  fresh := by rw [h7, h6]; exact h.fresh

lemma Told.update (h : s.Told) (E : Env) (rev : Int) : (s.gaugeUpdate E rev).Told := by
  unfold gaugeUpdate
  split
  · exact h
  rename_i hon
  simp only [Bool.or_eq_true, Bool.not_eq_true', not_or, Bool.not_eq_true, Bool.not_eq_false] at hon
  rw [h.report]
  refine ⟨rfl, rfl, fun he => ?_, fun hg => ?_, h.fresh⟩
  · exact absurd (hon.2.symm.trans he) (by decide)
  · exact absurd (hon.1.symm.trans hg) (by decide)

lemma Told.kill (h : s.Told) : s.endGauge.Told := by
  unfold endGauge
  split
  · exact h
  have h' : ∀ hz : s.gContrib = 0 ∧ s.gBacklog = false, Told { s with gEnded := true } :=
    fun hz => { h with ended := fun _ => hz }
  split
  next hoff => exact h' (h.off (by simpa using hoff))
  have heq : ({ s with gEnded := true }.contribute 0).setBacklog false =
      { s with gEnded := true, added := 0, gContrib := 0, raised := 0, gBacklog := false } := by
    rw [contribute_told { s with gEnded := true } 0 h.added]
    exact setBacklog_told _ false h.raised
  rw [heq]
  exact ⟨rfl, rfl, fun _ => ⟨rfl, rfl⟩, fun _ => ⟨rfl, rfl⟩, h.fresh⟩

/-! ### The records -/

/-- What a commit keeps of a record. -/
def key (r : PingRecord) : UInt32 × UInt64 × Nat × Bool × Nat :=
  (r.id, r.nonce, r.mark, r.early, r.ser)

lemma commitAt_keys (id : UInt32) (at' : Int) (l : List PingRecord) :
    (commitAt id at' l).map key = l.map key := by
  induction l with
  | nil => rfl
  | cons r rs ih =>
    unfold commitAt
    split
    · rfl
    · rw [map_cons, ih, map_cons]

lemma commitAt_length (id : UInt32) (at' : Int) (l : List PingRecord) :
    (commitAt id at' l).length = l.length := by
  have := congrArg List.length (commitAt_keys id at' l)
  simpa using this

variable {r : PingRecord} {l : List PingRecord} {id : UInt32}

/-- The record a commit leaves at an index. -/
lemma commitAt_get {at' : Int} {i : Nat} (h : (commitAt id at' l)[i]? = some r) :
    ∃ r0, l[i]? = some r0 ∧ key r = key r0 := by
  have hi := congrArg (fun l => l[i]?) (commitAt_keys id at' l)
  simp only [getElem?_map, h, Option.map_some] at hi
  obtain ⟨r0, h0, hk⟩ := Option.map_eq_some_iff.mp hi.symm
  exact ⟨r0, h0, hk.symm⟩

lemma mem_commitAt {at' : Int} (h : r ∈ commitAt id at' l) : ∃ r0 ∈ l, key r = key r0 := by
  obtain ⟨i, hi⟩ := mem_iff_getElem?.mp h
  obtain ⟨r0, h0, hk⟩ := commitAt_get hi
  exact ⟨r0, mem_of_getElem? h0, hk⟩

lemma key_inj {a b : PingRecord} (h : key a = key b) :
    a.id = b.id ∧ a.nonce = b.nonce ∧ a.mark = b.mark ∧ a.early = b.early ∧ a.ser = b.ser := by
  simpa [key] using h

/-- **The records of a carrier**, under any peer. -/
structure Core (E : Env) (s : St) : Prop where
  len : s.recs.length ≤ pingRingSize
  ids : ∀ r ∈ s.recs, r.id = UInt32.ofNat r.ser ∧ r.nonce = E.salt ^^^ r.id.toUInt64 ∧ r.ser < s.cnt
  order : s.recs.Pairwise fun a b => a.ser < b.ser
  next : s.nextPingID = UInt32.ofNat s.cnt
  mark : s.pongMark ≤ s.submitted
  marks : ∀ r ∈ s.recs, r.mark ≤ s.submitted + s.data
  settled : ∀ r ∈ s.recs, r.committedAt.isSome ∨ E.dg = true → r.mark ≤ s.submitted
  taken : s.samples.Pairwise (· > ·)
  past : ∀ k ∈ s.samples, k < s.cnt ∧ ∀ r ∈ s.recs, k < r.ser
  early : ∀ r ∈ s.recs, r.early = true → (r.id, r.nonce) ∈ s.ponged

/-- The records read the fields of the records only. -/
lemma Core.of_same (h : Core E s) {s' : St} (h1 : s'.recs = s.recs) (h2 : s'.cnt = s.cnt)
    (h3 : s'.nextPingID = s.nextPingID) (h4 : s'.pongMark = s.pongMark)
    (h5 : s'.submitted = s.submitted) (h6 : s.data ≤ s'.data) (h7 : s'.samples = s.samples)
    (h8 : s'.ponged = s.ponged) : Core E s' where
  len := by rw [h1]; exact h.len
  ids := by rw [h1, h2]; exact h.ids
  order := by rw [h1]; exact h.order
  next := by rw [h3, h2]; exact h.next
  mark := by rw [h4, h5]; exact h.mark
  marks := by
    rw [h1, h5]
    intro r hr
    have := h.marks r hr
    omega
  settled := by rw [h1, h5]; exact h.settled
  taken := by rw [h7]; exact h.taken
  past := by rw [h7, h2, h1]; exact h.past
  early := by rw [h1, h8]; exact h.early

lemma Core.update (h : Core E s) (rev : Int) : Core E (s.gaugeUpdate E rev) := by
  obtain ⟨a, r, c, b, heq⟩ := gaugeUpdate_eq E s rev
  rw [heq]
  exact h.of_same rfl rfl rfl rfl rfl le_rfl rfl rfl

lemma Core.encodePing (h : Core E s) {atEnd : Bool} (hmay : s.mayEncode E atEnd = true)
    (now : Int) (backlogged : Bool) (rev : Int) :
    Core E (s.encodePing E now atEnd backlogged rev) := by
  unfold mayEncode at hmay
  simp only [Bool.and_eq_true, decide_eq_true_eq] at hmay
  obtain ⟨⟨hlen, -⟩, hdg⟩ := hmay
  refine Core.update ?_ rev
  have hid : (if s.skips E then 1 else s.nextPingID) =
      UInt32.ofNat (if s.skips E then s.cnt + 1 else s.cnt) := by
    split
    next hsk =>
      simp only [skips, Bool.and_eq_true, beq_iff_eq] at hsk
      rw [UInt32.ofNat_add, ← h.next, hsk.1]
      rfl
    · exact h.next
  have hser : s.cnt ≤ if s.skips E then s.cnt + 1 else s.cnt := by
    split <;> omega
  refine ⟨?_, ?_, ?_, ?_, h.mark, ?_, ?_, h.taken, ?_, ?_⟩
  · simp only [length_append, length_singleton]
    omega
  · intro r hr
    rcases mem_append.mp hr with hr | hr
    · obtain ⟨h1, h2, h3⟩ := h.ids r hr
      exact ⟨h1, h2, by dsimp only; omega⟩
    · rw [mem_singleton.mp hr]
      exact ⟨hid, rfl, Nat.lt_succ_self _⟩
  · refine pairwise_append.mpr ⟨h.order, pairwise_singleton .., fun a ha b hb => ?_⟩
    rw [mem_singleton.mp hb]
    have := (h.ids a ha).2.2
    dsimp only
    omega
  · dsimp only
    rw [hid, UInt32.ofNat_add]
    rfl
  · intro r hr
    rcases mem_append.mp hr with hr | hr
    · exact h.marks r hr
    · rw [mem_singleton.mp hr]
      dsimp only
      split <;> omega
  · intro r hr hs
    rcases mem_append.mp hr with hr | hr
    · exact h.settled r hr hs
    rw [mem_singleton.mp hr] at hs ⊢
    dsimp only at hs ⊢
    split
    next hend =>
      rw [if_pos hend, Bool.not_eq_true'] at hdg
      rcases hs with hs | hs
      · cases hs
      · rw [hdg] at hs
        cases hs
    · exact le_rfl
  · intro k hk
    obtain ⟨h1, h2⟩ := h.past k hk
    refine ⟨by dsimp only; omega, fun r hr => ?_⟩
    rcases mem_append.mp hr with hr | hr
    · exact h2 r hr
    · rw [mem_singleton.mp hr]
      dsimp only
      omega
  intro r hr he
  rcases mem_append.mp hr with hr | hr
  · exact h.early r hr he
  · rw [mem_singleton.mp hr] at he
    cases he

/-- A commit moves the watermark to a mark that an early PONG matched, at most. -/
lemma commitPing_pongMark (s : St) (p : RoundPing) (at' : Int) :
    (s.commitPing p at').pongMark = s.pongMark ∨ ∃ r ∈ s.recs, r.early = true ∧
      s.pongMark < r.mark ∧ (s.commitPing p at').pongMark = r.mark := by
  unfold commitPing
  split
  · exact .inl rfl
  rename_i r hr
  split
  next he =>
    rw [Bool.and_eq_true, decide_eq_true_eq] at he
    exact .inr ⟨r, mem_of_find?_eq_some hr, he.1, he.2, rfl⟩
  · exact .inl rfl

section

variable (h : Core E s)
include h

/-- A commit of a state whose marks are all of what was submitted. -/
lemma Core.commitPing (hm : ∀ r ∈ s.recs, r.mark ≤ s.submitted) (p : RoundPing) (at' : Int) :
    Core E (s.commitPing p at') where
  len := by
    have := h.len
    simp only [St.commitPing, commitAt_length]
    exact this
  ids r hr := by
    obtain ⟨r0, h0, hk⟩ := mem_commitAt hr
    obtain ⟨e1, e2, -, -, e5⟩ := key_inj hk
    rw [e1, e2, e5]
    exact h.ids r0 h0
  order := by
    have hkeys := commitAt_keys p.id at' s.recs
    have hsers : (commitAt p.id at' s.recs).map PingRecord.ser = s.recs.map PingRecord.ser := by
      have := congrArg (List.map fun k : UInt32 × UInt64 × Nat × Bool × Nat => k.2.2.2.2) hkeys
      simpa [map_map, Function.comp_def, key] using this
    have horder : (s.recs.map PingRecord.ser).Pairwise (· < ·) := pairwise_map.mpr h.order
    rw [← hsers] at horder
    exact pairwise_map.mp horder
  next := h.next
  mark := by
    rcases commitPing_pongMark s p at' with heq | ⟨r, hr, -, -, heq⟩
    · rw [heq]
      exact h.mark
    · rw [heq]
      exact hm r hr
  marks r hr := by
    obtain ⟨r0, h0, hk⟩ := mem_commitAt hr
    rw [(key_inj hk).2.2.1]
    exact h.marks r0 h0
  settled r hr _ := by
    obtain ⟨r0, h0, hk⟩ := mem_commitAt hr
    rw [(key_inj hk).2.2.1]
    exact hm r0 h0
  taken := h.taken
  past k hk := by
    refine ⟨(h.past k hk).1, fun r hr => ?_⟩
    obtain ⟨r0, h0, hk'⟩ := mem_commitAt hr
    rw [(key_inj hk').2.2.2.2]
    exact (h.past k hk).2 r0 h0
  early r hr he := by
    obtain ⟨r0, h0, hk⟩ := mem_commitAt hr
    obtain ⟨e1, e2, -, e4, -⟩ := key_inj hk
    rw [e1, e2]
    exact h.early r0 h0 (e4 ▸ he)

/-- The batch was written: all marks are of what is submitted now. -/
lemma Core.submit : Core E s.submit where
  len := h.len
  ids := h.ids
  order := h.order
  next := h.next
  mark := le_trans h.mark (Nat.le_add_right ..)
  marks := h.marks
  settled r hr _ := h.marks r hr
  taken := h.taken
  past := h.past
  early := h.early

lemma Core.settle (hm : ∀ r ∈ s.recs, r.mark ≤ s.submitted) (at' : Int) (ping : Option RoundPing)
    : Core E (s.settle at' ping) := by
  cases ping with
  | none => exact h
  | some p => exact h.commitPing hm p at'

lemma Core.wantPing (want : Bool) : Core E (s.wantPing want) := by
  exact guard h fun _ => h.of_same rfl rfl rfl rfl rfl le_rfl rfl rfl

lemma Core.commit (at' : Int) (capBlocked : Bool) (rev : Int) :
    Core E (s.commit E at' capBlocked rev) :=
  ((h.submit.settle h.marks at' s.ping).wantPing _).update rev

/-- Fewer records, from the back of the queue. -/
lemma Core.sub (hl : l.Sublist s.recs) :
    Core E { s with recs := l } where
  len := le_trans hl.length_le h.len
  ids r hr := h.ids r (hl.subset hr)
  order := h.order.sublist hl
  next := h.next
  mark := h.mark
  marks r hr := h.marks r (hl.subset hr)
  settled r hr := h.settled r (hl.subset hr)
  taken := h.taken
  past k hk := ⟨(h.past k hk).1, fun r hr => (h.past k hk).2 r (hl.subset hr)⟩
  early r hr := h.early r (hl.subset hr)

lemma Core.dgCommit (hdg : E.dg = true) (at' : Int) : Core E (s.dgCommit at') := by
  unfold St.dgCommit
  split
  · exact h
  · exact (h.commitPing (fun r hr => h.settled r hr (.inr hdg)) _ at').of_same
      rfl rfl rfl rfl rfl le_rfl rfl rfl

lemma Core.dgUnsentPing : Core E s.dgUnsentPing := by
  have h0 : Core E { s with ping := none } := h.of_same rfl rfl rfl rfl rfl le_rfl rfl rfl
  unfold St.dgUnsentPing
  split
  · split
    · exact h0.sub (dropLast_sublist _)
    · exact h0
  · exact h0

end

variable {rest : List PingRecord}

/-- The records behind a match. -/
lemma Core.raced (h : Core E s) (hsuf : (r :: rest).Sublist s.recs) (rev : Int) :
    Core E (s.early E r rest rev) := by
  have hr : r ∈ s.recs := hsuf.subset (mem_cons_self ..)
  -- the watermark moves first, then the records change
  have hmark : ∃ s1 : St, Core E s1 ∧ s1.recs = s.recs ∧
      s.early E r rest rev =
        { s1 with recs := { r with early := true } :: rest, ponged := (r.id, r.nonce) :: s1.ponged } := by
    unfold St.early
    dsimp only
    split
    · have h1 : Core E { s with pongMark := min r.mark s.submitted } :=
        { h.sub (List.Sublist.refl _) with mark := min_le_right .. }
      obtain ⟨a, b, c, d, heq⟩ :=
        gaugeUpdate_eq E { s with pongMark := min r.mark s.submitted } rev
      exact ⟨_, h1.update rev, by rw [heq], rfl⟩
    · exact ⟨s, h, rfl, rfl⟩
  obtain ⟨s1, h1, hrecs, heq⟩ := hmark
  rw [heq]
  rw [← hrecs] at hsuf hr
  have hsub := h1.sub hsuf
  refine ⟨hsub.len, fun r' hr' => ?_, ?_, h1.next, h1.mark, fun r' hr' => ?_, fun r' hr' hc => ?_,
    h1.taken, fun k hk => ⟨(h1.past k hk).1, fun r' hr' => ?_⟩, fun r' hr' he => ?_⟩
  · rcases mem_cons.mp hr' with rfl | hr'
    · exact h1.ids r hr
    · exact hsub.ids r' (mem_cons_of_mem _ hr')
  · exact pairwise_cons.mpr (pairwise_cons.mp hsub.order)
  · rcases mem_cons.mp hr' with rfl | hr'
    · exact h1.marks r hr
    · exact hsub.marks r' (mem_cons_of_mem _ hr')
  · rcases mem_cons.mp hr' with rfl | hr'
    · exact h1.settled r hr hc
    · exact hsub.settled r' (mem_cons_of_mem _ hr') hc
  · rcases mem_cons.mp hr' with rfl | hr'
    · exact (h1.past k hk).2 r hr
    · exact (hsub.past k hk).2 r' (mem_cons_of_mem _ hr')
  · rcases mem_cons.mp hr' with rfl | hr'
    · exact mem_cons_self ..
    · exact mem_cons_of_mem _ (hsub.early r' (mem_cons_of_mem _ hr') he)

lemma Core.answered (h : Core E s) (hsuf : (r :: rest).Sublist s.recs) (hc : r.committedAt.isSome)
    (rtt rev : Int) : Core E (s.answered E r rest rtt rev) := by
  have hr : r ∈ s.recs := hsuf.subset (mem_cons_self ..)
  have hsub := h.sub hsuf
  have hrest := h.sub ((sublist_cons_self r rest).trans hsuf)
  refine Core.update (s := { s.sample rtt with
    recs := rest
    pongMark := if s.pongMark < r.mark then r.mark else s.pongMark
    samples := r.ser :: s.samples
    ponged := (r.id, r.nonce) :: s.ponged }) ?_ rev
  refine ⟨hrest.len, hrest.ids, hrest.order, h.next, ?_, hrest.marks, hrest.settled, ?_, ?_, ?_⟩
  · dsimp only [sample]
    split
    · exact h.settled r hr (.inl hc)
    · exact h.mark
  · exact pairwise_cons.mpr ⟨fun k hk => (h.past k hk).2 r hr, h.taken⟩
  · intro k hk
    rcases mem_cons.mp hk with rfl | hk
    · exact ⟨(h.ids r hr).2.2, (pairwise_cons.mp hsub.order).1⟩
    · exact hrest.past k hk
  · intro r' hr' he
    exact mem_cons_of_mem _ (hrest.early r' hr' he)

/-- **What a PONG does**: it matches no record and changes nothing, or it is early, or a sample. -/
lemma onPong_cases (E : Env) (s : St) (id : UInt32) (nonce : UInt64) (now rev : Int)
    (capBlocked : Bool) :
    (s.onPong E id nonce now rev capBlocked).1 = s ∨
    ∃ r rest, s.recs.dropWhile (fun r => r.id != id) = r :: rest ∧ r.nonce = nonce ∧
      (r.committedAt = none ∧ (s.onPong E id nonce now rev capBlocked).1 = s.early E r rest rev ∨
       r.committedAt.isSome ∧ ∃ rtt,
        (s.onPong E id nonce now rev capBlocked).1 = s.answered E r rest rtt rev) := by
  unfold onPong
  split
  · exact .inl rfl
  rename_i r rest hdrop
  split
  · exact .inl rfl
  rename_i hn
  refine .inr ⟨r, rest, hdrop, not_not.mp hn, ?_⟩
  split
  next hc => exact .inl ⟨hc, rfl⟩
  next at' hc => exact .inr ⟨by rw [hc]; rfl, _, rfl⟩

lemma suffix_of_drop (h : s.recs.dropWhile (fun r => r.id != id) = r :: rest) :
    (r :: rest) <:+ s.recs ∧ r.id = id := by
  refine ⟨h ▸ dropWhile_suffix _, ?_⟩
  have := head?_dropWhile_not (fun r : PingRecord => r.id != id) s.recs
  rw [h] at this
  simpa using this

/-- **One section keeps the records.** -/
lemma Core.step (h : Core E s) (ev : Ev) : Core E (s.step E ev) := by
  cases ev with
  | start gauge =>
    rw [St.step]
    split
    · exact h
    · exact h.of_same rfl rfl rfl rfl rfl le_rfl rfl rfl
  | encode now atEnd backlogged rev =>
    rw [St.step]
    exact guard h fun hmay => h.encodePing hmay now backlogged rev
  | fill n => exact h.of_same rfl rfl rfl rfl rfl (Nat.le_add_right ..) rfl rfl
  | commit at' capBlocked rev =>
    rw [St.step]
    exact guard (h.commit at' capBlocked rev) fun _ => h
  | dgCommit at' =>
    rw [St.step]
    exact guard h fun hdg => h.dgCommit hdg at'
  | refused =>
    rw [St.step]
    exact guard h fun _ => h.dgUnsentPing
  | pong id nonce now rev capBlocked =>
    rw [St.step]
    rcases onPong_cases E s id nonce now rev capBlocked with heq | ⟨r, rest, hdrop, -, hcase⟩
    · rw [heq]
      exact h
    have hsuf := (suffix_of_drop hdrop).1.sublist
    rcases hcase with ⟨-, heq⟩ | ⟨hc, rtt, heq⟩
    · rw [heq]
      exact h.raced hsuf rev
    · rw [heq]
      exact h.answered hsuf hc rtt rev
  | peerPing busy rev =>
    rw [St.step, onPing]
    split
    · have h' : Core E { s with peerBusy := busy } :=
        h.of_same rfl rfl rfl rfl rfl le_rfl rfl rfl
      exact h'.update rev
    · exact h
  | request => exact h.of_same rfl rfl rfl rfl rfl le_rfl rfl rfl
  | kill =>
    obtain ⟨a, r, c, b, heq⟩ := endGauge_eq s
    rw [St.step, heq]
    exact h.of_same rfl rfl rfl rfl rfl le_rfl rfl rfl

lemma core_new (E : Env) (first : UInt32) : Core E (new first) where
  len := Nat.zero_le _
  ids _ hr := by cases hr
  order := List.Pairwise.nil
  next := by simp [new]
  mark := le_rfl
  marks _ hr := by cases hr
  settled _ hr := by cases hr
  taken := List.Pairwise.nil
  past _ hk := by cases hk
  early _ hr := by cases hr

/-! ### The reports of a run -/

lemma Told.encodePing (h : s.Told) (E : Env) (now : Int) (atEnd backlogged : Bool) (rev : Int) :
    (s.encodePing E now atEnd backlogged rev).Told := by
  refine Told.update ?_ E rev
  exact h.of_same rfl rfl rfl rfl rfl rfl rfl

lemma Told.settle (h : s.Told) (at' : Int) (ping : Option RoundPing) : (s.settle at' ping).Told := by
  cases ping with
  | none => exact h
  | some p => exact h.of_same rfl rfl rfl rfl rfl rfl rfl

lemma Told.commit (h : s.Told) (E : Env) (at' : Int) (capBlocked : Bool) (rev : Int) :
    (s.commit E at' capBlocked rev).Told := by
  refine Told.update ?_ E rev
  have h0 : s.submit.Told := h.of_same rfl rfl rfl rfl rfl rfl rfl
  unfold wantPing
  split
  · exact (h0.settle at' s.ping).of_same rfl rfl rfl rfl rfl rfl rfl
  · exact h0.settle at' s.ping

lemma Told.pong (h : s.Told) (E : Env) (id : UInt32) (nonce : UInt64) (now rev : Int)
    (capBlocked : Bool) : (s.onPong E id nonce now rev capBlocked).1.Told := by
  rcases onPong_cases E s id nonce now rev capBlocked with heq | ⟨r, rest, -, -, ⟨-, heq⟩ | ⟨-, rtt, heq⟩⟩
  · rw [heq]
    exact h
  · rw [heq, early]
    split
    · have h' : Told { s with pongMark := min r.mark s.submitted } :=
        h.of_same rfl rfl rfl rfl rfl rfl rfl
      exact (h'.update E rev).of_same rfl rfl rfl rfl rfl rfl rfl
    · exact h.of_same rfl rfl rfl rfl rfl rfl rfl
  · rw [heq, answered]
    refine Told.update ?_ E rev
    exact h.of_same rfl rfl rfl rfl rfl rfl rfl

/-- **One section keeps what the gauge was told.** -/
lemma Told.step (h : s.Told) (E : Env) (ev : Ev) : (s.step E ev).Told := by
  cases ev with
  | start gauge =>
    rw [St.step]
    split
    · exact h
    next hs =>
      have hoff := h.off (h.fresh (by simpa using hs))
      exact ⟨h.added, h.raised, fun _ => hoff, fun _ => hoff, nofun⟩
  | encode now atEnd backlogged rev =>
    rw [St.step]
    exact guard h fun _ => h.encodePing E now atEnd backlogged rev
  | fill n | request => exact h.of_same rfl rfl rfl rfl rfl rfl rfl
  | commit at' capBlocked rev =>
    rw [St.step]
    exact guard (h.commit E at' capBlocked rev) fun _ => h
  | dgCommit at' =>
    rw [St.step, St.dgCommit]
    split
    · split
      · exact h
      · exact h.of_same rfl rfl rfl rfl rfl rfl rfl
    · exact h
  | refused =>
    rw [St.step, St.dgUnsentPing]
    split
    · split
      · split <;> exact h.of_same rfl rfl rfl rfl rfl rfl rfl
      · exact h.of_same rfl rfl rfl rfl rfl rfl rfl
    · exact h
  | pong id nonce now rev capBlocked => exact h.pong E id nonce now rev capBlocked
  | peerPing busy rev =>
    rw [St.step, onPing]
    split
    · have h' : Told { s with peerBusy := busy } := h.of_same rfl rfl rfl rfl rfl rfl rfl
      exact h'.update E rev
    · exact h
  | kill => exact h.kill

/-- The records are the last ids of the counter. -/
def Dense (s : St) : Prop := ∀ i r, s.recs[i]? = some r → r.ser + s.recs.length = s.cnt + i

section

variable (h : s.Dense)
include h

lemma Dense.of_same {s' : St} (h1 : s'.recs = s.recs) (h2 : s'.cnt = s.cnt) : s'.Dense := by
  unfold Dense
  rw [h1, h2]
  exact h

lemma Dense.suffix (hl : l <:+ s.recs) : Dense { s with recs := l } := by
  intro i r hr
  obtain ⟨pre, heq⟩ := hl
  dsimp only at hr ⊢
  have hr' : s.recs[pre.length + i]? = some r := by
    rw [← heq, getElem?_append_right (Nat.le_add_right ..), Nat.add_sub_cancel_left]
    exact hr
  have := h _ r hr'
  rw [← heq, length_append] at this
  omega

lemma Dense.update (E : Env) (rev : Int) : (s.gaugeUpdate E rev).Dense := by
  obtain ⟨a, r, c, b, heq⟩ := gaugeUpdate_eq E s rev
  rw [heq]
  exact h.of_same rfl rfl

lemma Dense.encodePing (hdg : E.dg = false) (now : Int) (atEnd backlogged : Bool) (rev : Int) :
    (s.encodePing E now atEnd backlogged rev).Dense := by
  refine Dense.update ?_ E rev
  have hsk : s.skips E = false := by
    simp [skips, hdg]
  intro i r hr
  dsimp only at hr ⊢
  rw [hsk] at hr ⊢
  simp only [Bool.false_eq_true, if_false] at hr ⊢
  rw [length_append, length_singleton]
  rw [getElem?_append] at hr
  split at hr
  · have := h i r hr
    omega
  rw [getElem?_singleton] at hr
  split at hr
  · cases hr
    dsimp only
    omega
  · cases hr

lemma Dense.settle (at' : Int) (ping : Option RoundPing) : (s.settle at' ping).Dense := by
  cases ping with
  | none => exact h
  | some p =>
    intro i r hr
    obtain ⟨r0, h0, hk⟩ := commitAt_get hr
    have := h i r0 h0
    simp only [St.settle, commitPing, commitAt_length]
    rw [(key_inj hk).2.2.2.2]
    exact this

lemma Dense.commit (E : Env) (at' : Int) (capBlocked : Bool) (rev : Int) :
    (s.commit E at' capBlocked rev).Dense := by
  refine Dense.update ?_ E rev
  have h0 : s.submit.Dense := h.of_same rfl rfl
  unfold wantPing
  split
  · exact (h0.settle at' s.ping).of_same rfl rfl
  · exact h0.settle at' s.ping

lemma Dense.raced (hsuf : (r :: rest) <:+ s.recs) (E : Env) (rev : Int) :
    (s.early E r rest rev).Dense := by
  have hcnt : (s.early E r rest rev).cnt = s.cnt := by
    unfold early
    dsimp only
    split
    · obtain ⟨a, b, c, d, heq⟩ := gaugeUpdate_eq E { s with pongMark := min r.mark s.submitted } rev
      rw [heq]
    · rfl
  intro i r' hr'
  have h' := h.suffix hsuf
  rw [hcnt]
  cases i with
  | zero =>
    have := h' 0 r rfl
    cases hr'
    exact this
  | succ i => exact h' (i + 1) r' hr'

lemma Dense.answered (hsuf : (r :: rest) <:+ s.recs) (E : Env) (rtt rev : Int) :
    (s.answered E r rest rtt rev).Dense := by
  refine Dense.update ?_ E rev
  exact (h.suffix ((suffix_cons r rest).trans hsuf)).of_same rfl rfl

lemma Dense.step (hdg : E.dg = false) (ev : Ev) : (s.step E ev).Dense := by
  cases ev with
  | start gauge =>
    rw [St.step]
    exact guard (h.of_same rfl rfl) fun _ => h
  | encode now atEnd backlogged rev =>
    rw [St.step]
    exact guard h fun _ => h.encodePing hdg now atEnd backlogged rev
  | fill n => exact h.of_same rfl rfl
  | commit at' capBlocked rev =>
    rw [St.step]
    exact guard (h.commit E at' capBlocked rev) fun _ => h
  | dgCommit at' | refused =>
    rw [St.step, hdg]
    exact h
  | pong id nonce now rev capBlocked =>
    rw [St.step]
    rcases onPong_cases E s id nonce now rev capBlocked with
      heq | ⟨r, rest, hdrop, -, ⟨-, heq⟩ | ⟨-, rtt, heq⟩⟩
    · rw [heq]
      exact h
    · rw [heq]
      exact h.raced (suffix_of_drop hdrop).1 E rev
    · rw [heq]
      exact h.answered (suffix_of_drop hdrop).1 E rtt rev
  | peerPing busy rev =>
    rw [St.step, onPing]
    split
    · have h' : Dense { s with peerBusy := busy } := h.of_same rfl rfl
      exact h'.update E rev
    · exact h
  | request => exact h.of_same rfl rfl
  | kill =>
    obtain ⟨a, r, c, b, heq⟩ := endGauge_eq s
    rw [St.step, heq]
    exact h.of_same rfl rfl

end

end St

end Rendr.Carrier.Pings
