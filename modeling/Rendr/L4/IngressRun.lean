import Rendr.L4.IngressAll

/-!
# Every run of the ingress

* `All.step` — every step keeps the invariant.
* `ingress_units` — the units and gauges of a PortForward along every run.
* `ingress_datagrams` — every datagram is counted once, and a flow's are written in order.
-/

namespace Rendr.L4

open List Flow Counters Phase

namespace PortForward

namespace All

variable {max k k' : Int} {s : PortForward} {p i : Nat} {f f' : Flow} {v : Serve}
  {c : Counters → Counters}

/-! ### The goroutines of the flows -/

section

variable (h : s.All max 0) (hf : s.made[p]? = some f)
include h hf

lemma flowOpened (hph : f.phase = .dialing)
    (maxPayload : Nat) (rode : Bool) : (s.flowOpened p f maxPayload rode).All max 0 := by
  have hok := (h.good.ok p f hf).1
  have hst := hok.dialing hph
  have hseq : f.seq = f.first.toList ++ (f.firstQ.toList ++ f.q) := by
    unfold seq
    rw [hph]
    rfl
  have hfin : f.phase = .finished → (flushing [] false) = .finished := by
    rw [hph]
    rintro ⟨⟩
  unfold PortForward.flowOpened
  dsimp only
  split
  next hnone =>
    have hseq' : ({ f with maxPayload := maxPayload, phase := .flushing [] false } : Flow).seq =
        f.seq := by
      rw [hseq]
      rfl
    change ((s.setFlow p _).count id).All max 0
    refine h.setFlow hf ?_ rfl rfl rfl rfl (by rw [hph]; rfl) (fun hne => absurd hst hne) hfin
      (by simp) ?_
    · refine hok.change hok.gone ⟨hst, hnone⟩ (.inl ⟨rfl, rfl⟩) ?_ hok.alone
      rw [hseq']
    · unfold pend
      rw [hseq']
      rfl
  rename_i d hfirst
  have hq : f.firstQ = none := hok.alone.resolve_left fun he => by rw [he] at hfirst; cases hfirst
  rw [hfirst, hq] at hseq
  split
  · have hseq' : ({ f with
        maxPayload := maxPayload, phase := .flushing [] false, first := none
        wrote := f.wrote ++ [d.n] } : Flow).seq = f.q := by
      rw [hq]
      rfl
    refine h.setFlow hf ?_ rfl rfl rfl rfl (by rw [hph]; rfl) (fun hne => absurd hst hne) hfin
      (by simp) ?_
    · refine hok.change hok.gone ⟨hst, rfl⟩ (.inl ⟨rfl, rfl⟩) ?_ (.inl rfl)
      rw [hseq', hseq]
      simp
    unfold pend
    rw [hseq', hseq]
    simp [total]
    omega
  have hseq' : ({ f with
      maxPayload := maxPayload, phase := .flushing [] false, first := none
      firstQ := some d } : Flow).seq = f.seq := by
    rw [hseq]
    rfl
  change ((s.setFlow p _).count id).All max 0
  refine h.setFlow hf ?_ rfl rfl rfl rfl (by rw [hph]; rfl) (fun hne => absurd hst hne) hfin
    (by simp) ?_
  · refine hok.change hok.gone ⟨hst, rfl⟩ (.inl ⟨rfl, rfl⟩) ?_ (.inl rfl)
    rw [hseq']
  · unfold pend
    rw [hseq']
    rfl

lemma flowOpenFailed (hph : f.phase = .dialing)
    (stopping : Bool) : (s.flowOpenFailed p f stopping).All max 0 := by
  have hok := (h.good.ok p f hf).1
  have hin := hok.in_table (hok.dialing hph)
  have hpend : f.pend = ((f.queued.length + f.first.toList.length : Nat) : Int) := by
    unfold pend seq queued
    rw [hph]
    simp only [batch, nil_append, length_append]
    push_cast
    omega
  have hout : ∀ (ph : Phase) st g, ph.batch = [] → ({ f.takeQueue with
      first := none, phase := ph, state := st, gone := g } : Flow).seq = [] := by
    intro ph st g hb
    unfold seq takeQueue
    rw [hb]
    rfl
  have hsub : ∀ g : Flow, g.wrote = f.wrote → g.seq = [] →
      (g.wrote ++ g.seq.map Dgram.n).Sublist (f.wrote ++ f.seq.map Dgram.n) := by
    intro g hw hg
    rw [hw, hg, map_nil, append_nil]
    exact sublist_append_left _ _
  have hzero {g : Flow} (hg : g.seq = []) : g.pend = 0 := by
    unfold pend
    rw [hg]
    rfl
  unfold PortForward.flowOpenFailed
  split
  · refine (h.leave hf hin { f.takeQueue with first := none, phase := .owing !stopping } ?_ rfl rfl rfl
      rfl rfl (by simp) ?_).1 rfl
    · exact hok.change (by simp) ⟨rfl, hout _ _ _ rfl⟩ (.inr ⟨rfl, rfl⟩)
        (hsub _ rfl (hout _ _ _ rfl)) (.inl rfl)
    rw [hzero (hout _ _ _ rfl), hpend]
    simp only [total]
    push_cast
    omega
  refine h.setState hf ?_ (by decide) rfl rfl rfl rfl (by rw [hph]; rfl) rfl
    (by rw [hph]; rintro ⟨⟩) (by simp) ?_
  · refine hok.change ?_ ⟨.inl rfl, hout .holding .held f.gone rfl⟩ (.inr ⟨rfl, rfl⟩)
      (hsub _ rfl (hout .holding .held f.gone rfl)) (.inl rfl)
    have hin' : f.takeQueue.gone = false := hin
    simp [hin']
  rw [hzero (hout _ _ _ rfl), hpend]
  simp only [total]
  push_cast
  omega

lemma flowFlush {ended : Bool}
    (hph : f.phase = .flushing [] ended) : (s.flowFlush p f ended).All max 0 := by
  have hok := (h.good.ok p f hf).1
  obtain ⟨hst, hfirst⟩ := hok.flushing hph
  have hseq : f.seq = f.queued := by
    unfold seq queued
    rw [hph, hfirst]
    rfl
  have htake : ∀ (ph : Phase) st, ({ f.takeQueue with phase := ph, state := st } : Flow).seq =
      ph.batch := by
    intro ph st
    unfold seq takeQueue
    rw [hfirst]
    simp
  unfold PortForward.flowFlush
  split
  next hstop =>
    refine h.setFlow hf ?_ rfl rfl rfl rfl (by rw [hph]; rfl) (fun hne => absurd hst hne)
      (by rw [hph]; rintro ⟨⟩) (fun _ v hv => ?_) ?_
    · refine hok.change hok.gone ⟨hst, htake .stopping f.state⟩ (.inr ⟨rfl, rfl⟩) ?_ (.inl hfirst)
      rw [show ({ f.takeQueue with phase := .stopping } : Flow).seq = [] from htake .stopping f.state]
      rw [map_nil, append_nil]
      exact sublist_append_left _ _
    · unfold isStopped at hstop
      rw [hv] at hstop
      exact hstop
    unfold pend
    rw [show ({ f.takeQueue with phase := .stopping } : Flow).seq = [] from htake .stopping f.state,
      hseq]
    simp only [total, length_nil]
    push_cast
    omega
  split
  next hempty =>
    change ((s.setState p _ .opened).count id).All max 0
    refine h.setState hf ?_ (by decide) rfl rfl rfl rfl (by rw [hph]; rfl) rfl
      (by rw [hph]; rintro ⟨⟩) (by simp) ?_
    · refine hok.change ?_ ⟨by simp, htake .pumping .opened⟩ (.inr ⟨rfl, rfl⟩) ?_ (.inl hfirst)
      · have hin : f.takeQueue.gone = false := hok.in_table hst
        simp [hin]
      · rw [show ({ f.takeQueue with phase := .pumping, state := .opened } : Flow).seq = [] from
          htake .pumping .opened, map_nil, append_nil]
        exact sublist_append_left _ _
    unfold pend
    rw [show ({ f.takeQueue with phase := .pumping } : Flow).seq = [] from
      htake .pumping f.state, hseq, hempty]
    rfl
  change ((s.setFlow p _).count id).All max 0
  have hs : ({ f.takeQueue with phase := .flushing f.queued ended } : Flow).seq = f.seq :=
    (htake (.flushing f.queued ended) f.state).trans hseq.symm
  refine h.setFlow hf ?_ rfl rfl rfl rfl (by rw [hph]; rfl) (fun hne => absurd hst hne)
    (by rw [hph]; rintro ⟨⟩) (by simp) ?_
  · refine hok.change hok.gone ⟨hst, hfirst⟩ (.inr ⟨rfl, rfl⟩) ?_ (.inl hfirst)
    rw [hs]
    rfl
  · unfold pend
    rw [hs]
    rfl

lemma flowFlushOne {d : Dgram} {batch : List Dgram}
    {ended : Bool} (hph : f.phase = .flushing (d :: batch) ended) (aged : Bool) (w : Written) :
    (s.flowFlushOne p f d batch ended aged w).All max 0 := by
  have hok := (h.good.ok p f hf).1
  obtain ⟨hst, hfirst⟩ := hok.flushing hph
  have hseq : f.seq = d :: (batch ++ (f.firstQ.toList ++ f.q)) := by
    unfold seq
    rw [hph, hfirst]
    rfl
  have hseq' : ∀ e wr, ({ f with phase := .flushing batch e, wrote := wr } : Flow).seq =
      batch ++ (f.firstQ.toList ++ f.q) := by
    intro e wr
    rw [hfirst]
    rfl
  -- the head of the batch is counted: written, or left out
  have hnext : ∀ (e : Bool) (wr : List Nat) (c : Counters → Counters),
      (wr = f.wrote ∨ wr = f.wrote ++ [d.n]) → (c s.c).total = s.c.total + 1 →
      ((s.setFlow p { f with phase := .flushing batch e, wrote := wr }).count c).All max 0 := by
    intro e wr c hwr hc
    refine h.setFlow hf ?_ rfl rfl rfl rfl (by rw [hph]; rfl) (fun hne => absurd hst hne)
      (by rw [hph]; rintro ⟨⟩) nofun ?_
    · refine hok.change hok.gone ⟨hst, hfirst⟩ (.inl ⟨rfl, rfl⟩) ?_ hok.alone
      rw [hseq', hseq]
      rcases hwr with rfl | rfl
      · exact (sublist_cons_self ..).append_left _
      · simp
    unfold pend
    rw [hseq', hseq, hc, length_cons]
    push_cast
    omega
  unfold PortForward.flowFlushOne
  split
  · exact hnext ended f.wrote _ (.inl rfl) (by simp only [total]; omega)
  split
  · exact hnext ended f.wrote _ (.inl rfl) (by simp only [total]; omega)
  split
  · exact hnext ended f.wrote _ (.inl rfl) (by simp only [total]; omega)
  cases w with
  | ok => exact hnext ended _ _ (.inr rfl) (by simp only [total]; omega)
  | tooLarge => exact hnext ended f.wrote _ (.inl rfl) (by simp only [total]; omega)
  | failed early => exact hnext true f.wrote _ (.inl rfl) (by simp only [total]; omega)

end

/-- Nothing waits for a flow whose goroutine is past the flush. -/
lemma past_flush (h : s.All max k) (hf : s.made[p]? = some f)
    (hph : f.phase = .pumping ∨ f.phase = .stopping ∨ f.phase = .holding) :
    f.seq = [] ∧ f.first = none ∧ f.firstQ = none := by
  have hseq : f.seq = [] := by
    have := (h.good.ok p f hf).1.phase
    unfold Flow.PhaseOk at this
    rcases hph with hph | hph | hph <;> (rw [hph] at this; exact this.2)
  refine ⟨hseq, ?_⟩
  unfold seq at hseq
  simp only [append_eq_nil_iff, Option.toList_eq_nil_iff] at hseq
  exact ⟨hseq.1, hseq.2.2.1⟩

/-- A flow past the flush goes on to a phase in which nothing waits either. -/
lemma moves_on (h : s.All max k) (hf : s.made[p]? = some f)
    (hph : f.phase = .pumping ∨ f.phase = .stopping ∨ f.phase = .holding) (f' : Flow)
    (hgone : f'.gone = true ↔ f'.state = .unset)
    (hphase : f'.seq = [] → f'.PhaseOk) (hq : f'.q = f.q) (hqb : f'.qBytes = f.qBytes)
    (hfirst : f'.first = f.first) (hfirstQ : f'.firstQ = f.firstQ) (hb : f'.phase.batch = [])
    (hw : f'.wrote = f.wrote) : f'.Ok s.next ∧ f'.pend = f.pend := by
  obtain ⟨hseq, hf1, hf2⟩ := h.past_flush hf hph
  have hqn : f.q = [] := by
    unfold seq at hseq
    simp only [append_eq_nil_iff] at hseq
    exact hseq.2.2.2
  have hseq' : f'.seq = [] := by
    unfold seq
    rw [hfirst, hfirstQ, hq, hb, hf1, hf2, hqn]
    rfl
  refine ⟨(h.good.ok p f hf).1.change hgone (hphase hseq') (.inl ⟨hq, hqb⟩) ?_
    (.inl (hfirst.trans hf1)), ?_⟩
  · rw [hw, hseq', hseq]
  · unfold pend
    rw [hseq', hseq]

section

variable (h : s.All max 0)
include h

section

variable (hf : s.made[p]? = some f)
include hf

/-- The goroutine of a flow that is gone ends. -/
lemma finishes
    (hph : f.phase = .pumping ∨ f.phase = .stopping ∨ f.phase = .holding) (hgone : f.gone = true) :
    (s.setFlow p { f with phase := .finished }).All max 0 := by
  have hok := (h.good.ok p f hf).1
  have howes : f.phase.owes = 0 := by rcases hph with hph | hph | hph <;> (rw [hph]; rfl)
  obtain ⟨hok', hpend⟩ := h.moves_on hf hph { f with phase := .finished } hok.gone
    (fun hs => ⟨hok.gone.mp hgone, hs⟩) rfl rfl rfl rfl rfl rfl
  have hres : ((s.setFlow p { f with phase := .finished }).count id).All max 0 :=
    h.setFlow hf hok' rfl rfl rfl rfl howes.symm (fun _ => .inl rfl) (fun _ => rfl)
      nofun (by rw [hpend]; rfl)
  exact hres

/-- A flow past the flush leaves its table. -/
lemma leaves_past
    (hph : f.phase = .pumping ∨ f.phase = .stopping ∨ f.phase = .holding) (hin : f.gone = false)
    (ph : Phase) (hphase : seq { f with phase := ph, state := .unset, gone := true } = [] →
      Flow.PhaseOk { f with phase := ph, state := .unset, gone := true })
    (hb : ph.batch = []) (hs : ph ≠ .stopping) :
    (ph.owes = 1 → (s.remove p { f with phase := ph }).All max 0) ∧
    (ph.owes = 0 → All max 0 { s.remove p { f with phase := ph } with
      flows := s.flows - 1, released := p :: s.released }) := by
  obtain ⟨hok', hpend⟩ := h.moves_on hf hph
    { f with phase := ph, state := .unset, gone := true } (by simp) hphase rfl rfl rfl rfl hb rfl
  have hpend' : ({ f with phase := ph } : Flow).pend = f.pend := hpend
  exact h.leave hf hin { f with phase := ph } hok' rfl rfl rfl rfl rfl hs (c := id)
    (by rw [hpend']; rfl)

lemma flowEnds (hph : f.phase = .pumping ∨ f.phase = .stopping)
    (early : Bool) : (s.flowEnds p f early).All max 0 := by
  have hok := (h.good.ok p f hf).1
  have hph' : f.phase = .pumping ∨ f.phase = .stopping ∨ f.phase = .holding := hph.imp_right .inl
  have howes : f.phase.owes = 0 := by rcases hph with hph | hph <;> (rw [hph]; rfl)
  have hnot : f.phase ≠ .finished := by rcases hph with hph | hph <;> (rw [hph]; decide)
  unfold PortForward.flowEnds
  split
  next hgone => exact h.finishes hf hph' hgone
  rename_i hgone
  have hin : f.gone = false := by simpa using hgone
  split
  next hheld =>
    obtain ⟨hok', hpend⟩ := h.moves_on hf hph' { f with phase := .holding } hok.gone
      (fun hs => ⟨.inl hheld, hs⟩) rfl rfl rfl rfl rfl rfl
    have hres : ((s.setFlow p { f with phase := .holding }).count id).All max 0 :=
      h.setFlow hf hok' rfl rfl rfl rfl howes.symm (fun _ => .inl rfl) (fun he => absurd he hnot)
        nofun (by rw [hpend]; rfl)
    exact hres
  split
  · obtain ⟨hok', hpend⟩ := h.moves_on hf hph' { f with phase := .holding, state := .held }
      (by simp [hin]) (fun hs => ⟨.inl rfl, hs⟩) rfl rfl rfl rfl rfl rfl
    have hres : ((s.setState p { f with phase := .holding } .held).count id).All max 0 :=
      h.setState hf hok' (by decide) rfl rfl rfl rfl howes.symm rfl (fun he => absurd he hnot)
        nofun (by
          have : ({ f with phase := .holding } : Flow).pend = f.pend := hpend
          rw [this]
          rfl)
    exact hres
  · exact (h.leaves_past hf hph' hin .finished (fun hs => ⟨rfl, hs⟩) rfl (by decide)).2 rfl

lemma flowUnhold (hph : f.phase = .holding) :
    (s.flowUnhold p f).All max 0 := by
  have hph' : f.phase = .pumping ∨ f.phase = .stopping ∨ f.phase = .holding := .inr (.inr hph)
  unfold PortForward.flowUnhold
  split
  next hgone => exact h.finishes hf hph' hgone
  next hgone =>
    have hin : f.gone = false := by simpa using hgone
    exact (h.leaves_past hf hph' hin (.owing false) (fun hs => ⟨rfl, hs⟩) rfl (by decide)).1 rfl

/-- A flow's goroutine releases the unit. -/
lemma flowReleases {hold : Bool} (hph : f.phase = .owing hold) :
    All max 0 { s.setFlow p { f with phase := if hold then .holding else .finished } with
      flows := s.flows - 1, released := p :: s.released } := by
  set f' : Flow := { f with phase := if hold then .holding else .finished }
  have hok := (h.good.ok p f hf).1
  obtain ⟨hst, hseq⟩ : f.state = .unset ∧ f.seq = [] := by
    have := hok.phase
    unfold Flow.PhaseOk at this
    rw [hph] at this
    exact this
  have hgone := hok.gone.mpr hst
  have hb : (if hold then holding else finished).batch = [] := by cases hold <;> rfl
  have ho : (if hold then holding else finished).owes = 0 := by cases hold <;> rfl
  have hs : (if hold then holding else finished) ≠ .stopping := by
    cases hold <;> decide
  have hseq' : f'.seq = [] := by
    unfold seq at hseq ⊢
    rw [hph] at hseq
    rw [hb]
    exact hseq
  have hok' : f'.Ok s.next := by
    refine hok.change hok.gone ?_ (.inl ⟨rfl, rfl⟩) (by rw [hseq', hseq]) hok.alone
    cases hold with
    | true => exact ⟨.inr hst, hseq'⟩
    | false => exact ⟨hst, hseq'⟩
  have h1 := units_setFlow hf f'
  have h2 := pending_setFlow hf f'
  have h3 := inState_setFlow hf f'
  have hunit : f.unit = 1 := by
    unfold unit
    rw [hgone, hph]
    rfl
  have hunit' : f'.unit = 0 := by
    unfold unit
    rw [show f'.gone = true from hgone, show f'.phase.owes = 0 from ho]
    rfl
  have hpend : f'.pend = f.pend := by
    unfold pend
    rw [hseq', hseq]
  refine ⟨⟨?_, fun st hne => ?_, ?_⟩, ?_, ?_, ?_, h.opening_le⟩
  · have := h.sums.flows
    change s.flows - 1 = (s.setFlow p _).units
    rw [h1, hunit, hunit']
    omega
  · have hin : f'.isIn st =
        f.isIn st := rfl
    have := h.sums.gauge st hne
    change s.gauge st = (s.setFlow p _).inState st
    rw [h3, hin]
    omega
  · have := h.sums.given
    change (s.next : Int) = s.c.total + (s.setFlow p _).pending + 0
    rw [h2, hpend]
    omega
  · refine h.good.setFlow hf hok' rfl rfl rfl (fun hne => hne) (fun _ => .inl rfl) (fun he => ?_)
      fun he => absurd he hs
    rw [hph] at he
    cases he
  · have honce := h.units.once p f hf
    rw [hgone, hph] at honce
    refine h.units.move hf ?_ (fun r hr => ⟨count_cons_of_ne (Ne.symm hr), rfl, rfl⟩)
      h.units.owed (fun hg => hg) (.inl rfl)
    rw [count_cons_self]
    dsimp only [PortForward.setFlow]
    rw [ho, hgone, if_pos rfl]
    rw [if_pos rfl] at honce
    simp only [owes] at honce
    push_cast
    omega
  · have := h.flows_le
    change s.flows - 1 ≤ max
    omega

end

/-! ### The serves -/

/-- The reader releases the unit it owes. -/
lemma readerReleases (hv : s.serves[i]? = some v) {q : Option Nat} (hr : v.reader = .owing q) :
    All max 0 { s.setServe i { v with reader := .idle } with
      flows := s.flows - 1, released := q.toList ++ s.released } := by
  have h1 := units_setServe hv { v with reader := .idle }
  have h2 := pending_setServe hv { v with reader := .idle }
  rw [hr] at h1 h2
  simp only [Reader.owes, Reader.pend] at h1 h2
  have hsf := h.sums.flows
  have hsg := h.sums.given
  refine ⟨⟨?_, h.sums.gauge, ?_⟩, ?_, ?_, ?_, h.opening_le⟩
  · change s.flows - 1 = (s.setServe i { v with reader := .idle }).units
    omega
  · change (s.next : Int) = s.c.total + (s.setServe i { v with reader := .idle }).pending + 0
    omega
  · exact h.good.setServe hv rfl rfl (fun hs => hs)
      ((h.good.reader i v hv).goes (by rw [hr]; rintro ⟨⟩) (by rintro _ _ _ ⟨⟩))
  · cases q with
    | none =>
      refine h.units.setServe hv fun q => ?_
      rw [hr]
      constructor <;> rintro ⟨⟩
    | some q =>
      -- the unit of the flow moves from the reader to the releases
      have howed : ∀ r, owedBy (s.serves.set i { v with reader := .idle }) r +
          (if r = q then 1 else 0) = owedBy s.serves r := by
        intro r
        rw [Units.owedBy_set hv, hr]
        by_cases hrq : r = q
        · subst hrq
          rw [if_neg (by simp), if_pos rfl, if_pos rfl]
          omega
        · rw [if_neg (by simp), if_neg (by simpa using Ne.symm hrq), if_neg hrq]
          omega
      obtain ⟨g, hg⟩ : ∃ g : Flow, s.made[q]? = some g :=
        ⟨_, getElem?_eq_getElem (h.units.owed i v q hv hr)⟩
      have honce := h.units.once q g hg
      have hmove : Units (s.made.set q g) (s.serves.set i { v with reader := .idle })
          (q :: s.released) s.handed s.closed := by
        refine h.units.move hg ?_ (fun r hrq => ⟨count_cons_of_ne (Ne.symm hrq), rfl, ?_⟩)
          (fun j w r hw hwr => ?_) (fun hgo => hgo) (.inl rfl)
        · have := howed q
          rw [if_pos rfl] at this
          rw [count_cons_self, ← honce]
          push_cast
          omega
        · have := howed r
          rw [if_neg hrq] at this
          omega
        by_cases hj : j = i
        · rw [hj, getElem?_set_self (List.getElem?_eq_some_iff.mp hv).1] at hw
          cases hw
          cases hwr
        · rw [getElem?_set_ne (Ne.symm hj)] at hw
          exact h.units.owed j w r hw hwr
      have hsame : s.made.set q g = s.made := by
        obtain ⟨hlt, rfl⟩ := List.getElem?_eq_some_iff.mp hg
        exact set_getElem_self hlt
      rw [hsame] at hmove
      exact hmove
  · have := h.flows_le
    change s.flows - 1 ≤ max
    omega

/-- A serve changes its flags only, or its reader leaves. -/
lemma flags (hv : s.serves[i]? = some v) {v' : Serve} (hm : v'.m = v.m) (hall : v'.all = v.all)
    (hstop : v.stopped = true → v'.stopped = true) (hr : ReaderOk s.made s.next i v')
    (hreader : v'.reader = v.reader ∨ v.reader = .idle ∧ v'.reader = .exited) :
    (s.setServe i v').All max 0 := by
  have hres : ((s.setServe i v').count id).All max 0 := by
    refine h.setServe hv hm hall hstop hr ?_ (fun q => ?_) ?_
    · rcases hreader with he | ⟨h1, h2⟩
      · rw [he]
      · rw [h1, h2]
        rfl
    · rcases hreader with he | ⟨h1, h2⟩
      · rw [he]
      · rw [h1, h2]
        constructor <;> rintro ⟨⟩
    rcases hreader with he | ⟨h1, h2⟩
    · rw [he]
      rfl
    · rw [h1, h2]
      rfl
  exact hres

lemma haltServe (i : Nat) : (s.haltServe i).All max 0 := by
  unfold PortForward.haltServe
  split
  · exact h
  next v hv =>
    have hr := h.good.reader i v hv
    exact h.flags hv rfl rfl (fun hs => hs) { hr with } (.inl rfl)

lemma readerExits (hv : s.serves[i]? = some v) (hidle : v.reader = .idle) :
    (s.setServe i { v with reader := .exited }).All max 0 := by
  have hr := h.good.reader i v hv
  refine h.flags hv rfl rfl (fun hs => hs) ⟨fun _ => rfl, hr.returned, ?_⟩ (.inr ⟨hidle, rfl⟩)
  rintro _ _ _ ⟨⟩

lemma shutdown (hv : s.serves[i]? = some v) (hex : v.reader = .exited) :
    (s.setServe i { v with stopped := true }).All max 0 := by
  have hr := h.good.reader i v hv
  exact h.flags hv rfl rfl (fun _ => rfl)
    ⟨fun _ => hex, fun hret => ⟨rfl, (hr.returned hret).2⟩, hr.writing⟩ (.inl rfl)

/-- ServeUDP returns when the goroutines of its flows did. -/
lemma returns (hv : s.serves[i]? = some v) (hstop : v.stopped = true) (hrun : s.running i = false)
    : (s.setServe i { v with returned := true }).All max 0 := by
  have hr := h.good.reader i v hv
  refine h.flags hv rfl rfl (fun hs => hs) ⟨hr.stopped, fun _ => ⟨hstop, fun p f hf hs => ?_⟩,
    hr.writing⟩ (.inl rfl)
  unfold running at hrun
  rw [any_eq_false] at hrun
  have := hrun f (mem_of_getElem? hf)
  simpa [hs] using this

/-- Another `ServeUDP` call. -/
lemma serve :
    All max 0 { s with serves := s.serves ++ [⟨.idle, false, false, false, [], []⟩] } := by
  have hget : ∀ (j : Nat) (w : Serve),
      (s.serves ++ [(⟨.idle, false, false, false, [], []⟩ : Serve)])[j]? = some w →
      (j = s.serves.length ∧ w = ⟨.idle, false, false, false, [], []⟩) ∨ s.serves[j]? = some w := by
    intro j w hw
    rw [getElem?_append] at hw
    split at hw
    · exact .inr hw
    rw [getElem?_singleton] at hw
    split at hw
    · exact .inl ⟨by omega, (Option.some.inj hw).symm⟩
    · cases hw
  refine ⟨⟨?_, h.sums.gauge, ?_⟩, ⟨fun p f hf => ?_, fun p f hf hs w hw => ?_, fun j w hw => ?_,
    fun j w hw => ?_⟩, ⟨fun p f hf => ?_, fun p hp => ?_, fun j w p hw hr => ?_, h.units.single,
    h.units.ends⟩, h.flows_le, h.opening_le⟩
  · have := h.sums.flows
    unfold PortForward.units at this ⊢
    simpa [Reader.owes] using this
  · have := h.sums.given
    unfold PortForward.pending at this ⊢
    simpa [Reader.pend] using this
  · have := h.good.ok p f hf
    refine ⟨this.1, ?_⟩
    rw [length_append]
    omega
  · rcases hget _ w hw with ⟨hj, -⟩ | hw
    · exact absurd (h.good.ok p f hf).2 (by omega)
    · exact h.good.halted p f hf hs w hw
  · rcases hget j w hw with ⟨-, rfl⟩ | hw
    · refine ⟨(by simp), (by simp), by rintro _ _ _ ⟨⟩⟩
    · exact h.good.reader j w hw
  · rcases hget j w hw with ⟨rfl, rfl⟩ | hw
    · refine ⟨nodup_nil, fun c p => ⟨(by simp), ?_⟩, by rintro _ _ ⟨⟩,
        fun p => ⟨(by simp), by rintro ⟨_, ⟨⟩⟩⟩⟩
      rintro ⟨f, hf, hs, -⟩
      exact absurd (h.good.ok p f hf).2 (by omega)
    · exact h.good.table j w hw
  · have := h.units.once p f hf
    unfold owedBy at this ⊢
    simpa using this
  · have := h.units.past p hp
    unfold owedBy at this ⊢
    simpa using this
  · rcases hget j w hw with ⟨-, rfl⟩ | hw
    · cases hr
    · exact h.units.owed j w p hw hr

/-! ### Runs -/

lemma onServe {g : Serve → PortForward}
    (hg : ∀ v : Serve, s.serves[i]? = some v → (g v).All max 0) : (s.onServe i g).All max 0 := by
  unfold PortForward.onServe
  split
  · exact h
  · exact hg _ (by assumption)

lemma onFlow {g : Flow → PortForward} (hg : ∀ f : Flow, s.made[p]? = some f → (g f).All max 0) :
    (s.onFlow p g).All max 0 := by
  unfold PortForward.onFlow
  split
  · exact h
  · exact hg _ (by assumption)

/-- **Every step keeps the invariant.** -/
lemma step (bare : Nat → Nat) (ev : Ev) : (s.step max bare ev).All max 0 := by
  cases ev with
  | serve => exact h.serve
  | recv i src len pick =>
    refine h.onServe fun v hv => ?_
    exact guard h fun hc => h.received hv hc (bare i) src len pick
  | wrote i w pick =>
    refine h.onServe fun v hv => ?_
    split
    next p d src hw => exact h.wrote hv hw (bare i) w pick
    · exact h
  | readerReleases i =>
    refine h.onServe fun v hv => ?_
    split
    next q hq => exact h.readerReleases hv hq
    · exact h
  | halt i => exact h.haltServe i
  | readerExits i =>
    refine h.onServe fun v hv => ?_
    exact guard h fun hc => h.readerExits hv hc.1
  | shutdown i =>
    refine h.onServe fun v hv => ?_
    exact guard h fun hc => h.shutdown hv hc
  | returns i =>
    refine h.onServe fun v hv => ?_
    refine guard h fun hc => ?_
    simp only [Bool.and_eq_true, Bool.not_eq_true'] at hc
    exact h.returns hv hc.1 hc.2
  | opened p maxPayload rode =>
    refine h.onFlow fun f hf => ?_
    exact guard h fun hph => h.flowOpened hf hph maxPayload rode
  | openFailed p closed stopping =>
    refine h.onFlow fun f hf => ?_
    refine guard h fun hph => ?_
    obtain ⟨h1, hf1⟩ : (if closed then s.haltServe f.serve else s).All max 0 ∧
        (if closed then s.haltServe f.serve else s).made[p]? = some f := by
      split
      · refine ⟨h.haltServe f.serve, ?_⟩
        unfold PortForward.haltServe
        split <;> exact hf
      · exact ⟨h, hf⟩
    generalize (if closed then s.haltServe f.serve else s) = s1 at h1 hf1 ⊢
    exact guard (h1.flowOpenFailed hf1 hph stopping) fun _ => h1
  | flush p =>
    refine h.onFlow fun f hf => ?_
    split
    next ended hph => exact h.flowFlush hf hph
    · exact h
  | flushOne p aged w =>
    refine h.onFlow fun f hf => ?_
    split
    next d batch ended hph => exact h.flowFlushOne hf hph aged w
    · exact h
  | endFlow p early =>
    refine h.onFlow fun f hf => ?_
    exact guard h fun hph => h.flowEnds hf hph early
  | unhold p =>
    refine h.onFlow fun f hf => ?_
    exact guard h fun hph => h.flowUnhold hf hph
  | flowReleases p =>
    refine h.onFlow fun f hf => ?_
    split
    next hold hph => exact h.flowReleases hf hph
    · exact h

end

lemma new (hmax : 0 ≤ max) : PortForward.new.All max 0 where
  sums := ⟨rfl, fun _ _ => rfl, rfl⟩
  good := ⟨by rintro _ _ ⟨⟩, by rintro _ _ ⟨⟩, by rintro _ _ ⟨⟩, by rintro _ _ ⟨⟩⟩
  units := ⟨by rintro _ _ ⟨⟩, fun _ _ => ⟨rfl, rfl, rfl⟩, by rintro _ _ _ ⟨⟩, nodup_nil,
    by rintro _ ⟨⟩⟩
  flows_le := hmax
  opening_le := by decide

/-- The invariant holds along every run. -/
lemma run (hmax : 0 ≤ max) (bare : Nat → Nat) (evs : List Ev) :
    (runFrom (PortForward.step max bare) PortForward.new evs).All max 0 :=
  runFrom_inv (PortForward.All max 0) (All.new hmax) fun _ ev _ h => h.step bare ev

end All

/-! ### The entries of all tables -/

/-- The flows in the tables of all serves. -/
def entries (s : PortForward) : List Nat := s.serves.flatMap Serve.all

/-- The units between a removal and their release. -/
def owing (s : PortForward) : Nat :=
  s.made.countP (fun f => f.phase.owes == 1) + s.serves.countP fun v => v.reader.owes == 1

variable {s : PortForward} {max : Int}

lemma mem_entries (h : Good s.made s.idx s.serves s.next) (p : Nat) :
    p ∈ s.entries ↔ s.made[p]?.any (fun f => !f.gone) = true := by
  unfold entries
  rw [mem_flatMap, Option.any_eq_true_iff_get]
  constructor
  · rintro ⟨v, hv, hp⟩
    obtain ⟨i, hi⟩ := mem_iff_getElem?.mp hv
    obtain ⟨c, hc⟩ := ((h.table i v hi).dense p).mp hp
    obtain ⟨f, hf, -, hgone, -⟩ := ((h.table i v hi).entries c p).mp hc
    simp [hf, hgone]
  rintro ⟨hsome, hgone⟩
  obtain ⟨f, hf⟩ := Option.isSome_iff_exists.mp hsome
  simp only [hf, Option.get_some, Bool.not_eq_true'] at hgone
  obtain ⟨v, hv⟩ := h.serve hf
  refine ⟨v, mem_of_getElem? hv, ((h.table _ v hv).dense p).mpr ⟨f.client, ?_⟩⟩
  exact ((h.table _ v hv).entries f.client p).mpr ⟨f, hf, rfl, hgone, rfl⟩

lemma entries_nodup (h : Good s.made s.idx s.serves s.next) : s.entries.Nodup := by
  unfold entries
  rw [nodup_flatMap]
  refine ⟨fun v hv => ?_, pairwise_iff_getElem.mpr fun i j hi hj hij => ?_⟩
  · obtain ⟨i, hi⟩ := mem_iff_getElem?.mp hv
    exact (h.table i v hi).indexed.nodup
  -- a flow is in the table of its own serve only
  intro p hp hp'
  have h1 := h.table i _ (getElem?_eq_getElem hi)
  have h2 := h.table j _ (getElem?_eq_getElem hj)
  obtain ⟨c, hc⟩ := (h1.dense p).mp hp
  obtain ⟨c', hc'⟩ := (h2.dense p).mp hp'
  obtain ⟨f, hf, hs, -⟩ := (h1.entries c p).mp hc
  obtain ⟨f', hf', hs', -⟩ := (h2.entries c' p).mp hc'
  rw [hf] at hf'
  cases hf'
  omega

/-- Counting entries is counting the flows that are not gone. -/
lemma countP_entries (h : Good s.made s.idx s.serves s.next) (P : Flow → Bool) :
    (s.entries.countP fun p => s.made[p]?.any P) = s.made.countP fun f => P f && !f.gone := by
  have hperm : s.entries.Perm
      ((List.range s.made.length).filter fun p => s.made[p]?.any fun f => !f.gone) := by
    refine (perm_ext_iff_of_nodup (entries_nodup h) (nodup_range.filter _)).mpr fun p => ?_
    rw [mem_entries h, mem_filter, mem_range]
    refine ⟨fun hp => ⟨?_, hp⟩, fun hp => hp.2⟩
    by_contra hlt
    rw [getElem?_eq_none (by omega)] at hp
    cases hp
  rw [hperm.countP_eq, countP_filter, ← countP_range fun f => P f && !f.gone]
  refine countP_congr fun p _ => ?_
  cases s.made[p]? <;> simp

lemma units_eq (s : PortForward) :
    s.units = (s.made.countP fun f => !f.gone : Nat) + (s.owing : Int) := by
  have hone : ∀ x : Int, x = 0 ∨ x = 1 → x = if x == 1 then 1 else 0 := by
    rintro x (rfl | rfl) <;> rfl
  have h1 : (s.made.map unit).sum = (s.made.countP fun f => !f.gone : Nat) +
      ((s.made.countP fun f => f.phase.owes == 1 : Nat) : Int) := by
    rw [← sum_map_bool, ← sum_map_bool, ← sum_map_add]
    refine congrArg List.sum (map_congr_left fun f _ => ?_)
    unfold unit
    rw [← hone f.phase.owes (by cases f.phase <;> simp [owes])]
    cases f.gone <;> rfl
  have h2 : (s.serves.map fun v => v.reader.owes).sum =
      ((s.serves.countP fun v => v.reader.owes == 1 : Nat) : Int) := by
    rw [← sum_map_bool]
    refine congrArg List.sum (map_congr_left fun v _ => ?_)
    exact hone v.reader.owes (by cases v.reader <;> simp [Reader.owes])
  unfold units owing
  rw [h1, h2]
  push_cast
  omega

lemma inState_eq (h : Good s.made s.idx s.serves s.next) {st : FlowState} (hne : st ≠ .unset) :
    s.inState st = s.entries.countP fun p => s.made[p]?.any fun f => f.state == st := by
  rw [countP_entries h, ← sum_map_bool]
  refine congrArg List.sum (map_congr_left fun f hf => ?_)
  obtain ⟨p, hp⟩ := mem_iff_getElem?.mp hf
  have hgone := (h.ok p f hp).1.gone
  unfold isIn
  by_cases hst : f.state = st
  · have : f.gone = false := by
      by_contra hg
      exact hne (hst.symm.trans (hgone.mp (by simpa using hg)))
    simp [hst, this]
  · simp [hst]

/-! ### When ServeUDP returned -/

/-- Nothing is left of a serve that returned. -/
lemma All.over_serve (h : s.All max 0) {i : Nat} {v : Serve} (hv : s.serves[i]? = some v)
    (hret : v.returned = true) : v.reader = .exited ∧ ∀ (p : Nat) (f : Flow), s.made[p]? = some f →
      f.serve = i → f.phase = .finished ∧ f.gone = true ∧ f.seq = [] := by
  have hr := h.good.reader i v hv
  obtain ⟨hstop, hall⟩ := hr.returned hret
  refine ⟨hr.stopped hstop, fun p f hf hs => ?_⟩
  have hok := (h.good.ok p f hf).1
  have hph := hall p f hf hs
  have := hok.phase
  unfold Flow.PhaseOk at this
  rw [hph] at this
  exact ⟨hph, hok.gone.mpr this.1, this.2⟩

section

variable (h : s.All max 0) (hret : ∀ v ∈ s.serves, v.returned = true)
include h hret

lemma All.over_flow (f : Flow)
    (hf : f ∈ s.made) : f.phase = .finished ∧ f.gone = true ∧ f.seq = [] := by
  obtain ⟨p, hp⟩ := mem_iff_getElem?.mp hf
  obtain ⟨v, hv⟩ := h.good.serve hp
  exact (h.over_serve hv (hret v (mem_of_getElem? hv))).2 p f hp rfl

lemma All.over_reader (v : Serve)
    (hv : v ∈ s.serves) : v.reader = .exited := by
  obtain ⟨i, hi⟩ := mem_iff_getElem?.mp hv
  exact (h.over_serve hi (hret v hv)).1

lemma All.over :
    s.units = 0 ∧ (∀ st, st ≠ .unset → s.inState st = 0) ∧ s.pending = 0 ∧
      ∀ p, owedBy s.serves p = 0 := by
  have hflow := h.over_flow hret
  have hreader := h.over_reader hret
  have hsum : ∀ (a : Flow → Int) (b : Serve → Int), (∀ f ∈ s.made, a f = 0) →
      (∀ v ∈ s.serves, b v = 0) → (s.made.map a).sum + (s.serves.map b).sum = 0 := by
    intro a b ha hb
    rw [sum_eq_zero (forall_mem_map.mpr ha), sum_eq_zero (forall_mem_map.mpr hb)]
    rfl
  refine ⟨?_, fun st hne => ?_, ?_, fun p => ?_⟩
  · refine hsum _ _ (fun f hf => ?_) fun v hv => by rw [hreader v hv]; rfl
    obtain ⟨h1, h2, -⟩ := hflow f hf
    unfold unit
    rw [h1, h2]
    rfl
  · refine sum_eq_zero fun _ hx => ?_
    obtain ⟨f, hf, rfl⟩ := mem_map.mp hx
    obtain ⟨p, hp⟩ := mem_iff_getElem?.mp hf
    have := (h.good.ok p f hp).1.gone.mp (hflow f hf).2.1
    unfold isIn
    rw [this, if_neg (Ne.symm hne)]
  · refine hsum _ _ (fun f hf => ?_) fun v hv => by rw [hreader v hv]; rfl
    unfold pend
    rw [(hflow f hf).2.2]
    rfl
  refine sum_eq_zero fun _ hx => ?_
  obtain ⟨v, hv, rfl⟩ := mem_map.mp hx
  rw [hreader v hv]
  rfl

end

/-! ### The ingress -/

lemma maxFlows_nonneg (m : Int) : 0 ≤ maxFlows m := by
  unfold maxFlows
  split <;> omega

/-- **Units and gauges.** Along every run: `flows` is the entries of all tables and the units between
a removal and their release, within MaxFlows; the gauges are the entries in their states, at most 256
of them opening; every table has one entry for each client, and its list the same entries with their
indices; the unit of a flow that is gone was released, handed on or is owed once, and `done` is
closed once at most. When every ServeUDP returned, the counts are 0 and every unit went once. -/
theorem ingress_units (m : Int) (bare : Nat → Nat) (evs : List Ev) :
    let s : PortForward := runFrom (PortForward.step (maxFlows m) bare) PortForward.new evs
    (s.flows = s.entries.length + s.owing ∧ s.flows ≤ maxFlows m) ∧
    (∀ st, st ≠ .unset →
      s.gauge st = s.entries.countP fun p => s.made[p]?.any fun f => f.state == st) ∧
    s.gauge .opening ≤ 256 ∧
    (s.entries.Nodup ∧ ∀ (i : Nat) (v : Serve), s.serves[i]? = some v → TableOk s.made s.idx i v) ∧
    (∀ (p : Nat) (f : Flow), s.made[p]? = some f →
      (s.released.count p : Int) + s.handed.count p + f.phase.owes + owedBy s.serves p =
        if f.gone then 1 else 0) ∧
    s.closed.Nodup ∧
    ((∀ v ∈ s.serves, v.returned = true) →
      s.flows = 0 ∧ (∀ st, st ≠ .unset → s.gauge st = 0) ∧
      ∀ p < s.made.length, s.released.count p + s.handed.count p = 1) := by
  intro s
  have h : s.All (maxFlows m) 0 := All.run (maxFlows_nonneg m) bare evs
  have hlen : s.entries.length = s.made.countP fun f => !f.gone := by
    have hc := countP_entries h.good fun _ => true
    simp only [Bool.true_and] at hc
    rw [← hc]
    symm
    rw [countP_eq_length]
    intro p hp
    have := (mem_entries h.good p).mp hp
    cases hs : s.made[p]? with
    | none =>
      rw [hs] at this
      cases this
    | some f => rfl
  refine ⟨⟨?_, h.flows_le⟩, fun st hne => ?_, h.opening_le, ⟨entries_nodup h.good, h.good.table⟩,
    h.units.once, h.units.single, fun hret => ?_⟩
  · rw [h.sums.flows, units_eq, hlen]
  · rw [h.sums.gauge st hne, inState_eq h.good hne]
  obtain ⟨h1, h2, -, h4⟩ := h.over hret
  refine ⟨h.sums.flows.trans h1, fun st hne => (h.sums.gauge st hne).trans (h2 st hne),
    fun p hp => ?_⟩
  have hf := getElem?_eq_getElem hp
  have honce := h.units.once p _ hf
  obtain ⟨hph, hgone, -⟩ := h.over_flow hret _ (mem_of_getElem? hf)
  rw [hph, hgone, h4 p, if_pos rfl] at honce
  simp only [owes] at honce
  omega

/-- **Datagrams.** Along every run every datagram handed over was counted once or waits, and nothing
waits for a serve that returned; so once every ServeUDP returned the counters add up to the
datagrams. A flow's session gets them in the order of their arrival, and behind the first datagram
at most 8 copies wait, within 16 KiB of charged classes. -/
theorem ingress_datagrams (m : Int) (bare : Nat → Nat) (evs : List Ev) :
    let s : PortForward := runFrom (PortForward.step (maxFlows m) bare) PortForward.new evs
    (s.next : Int) = s.c.total + s.pending ∧
    (∀ (i : Nat) (v : Serve), s.serves[i]? = some v → v.returned = true →
      v.reader.pend = 0 ∧
      ∀ (p : Nat) (f : Flow), s.made[p]? = some f → f.serve = i → f.pend = 0) ∧
    ((∀ v ∈ s.serves, v.returned = true) → s.c.total = s.next) ∧
    ∀ (p : Nat) (f : Flow), s.made[p]? = some f →
      (f.wrote ++ f.seq.map Dgram.n).Pairwise (· < ·) ∧
      (f.first = none ∨ f.firstQ = none) ∧ f.q.length ≤ 8 ∧ charges f.q ≤ 16384 := by
  intro s
  have h : s.All (maxFlows m) 0 := All.run (maxFlows_nonneg m) bare evs
  have hgiven : (s.next : Int) = s.c.total + s.pending := by
    have := h.sums.given
    omega
  refine ⟨hgiven, fun i v hv hret => ?_, fun hret => ?_, fun p f hf => ?_⟩
  · obtain ⟨h1, h2⟩ := h.over_serve hv hret
    refine ⟨by rw [h1]; rfl, fun p f hf hs => ?_⟩
    unfold pend
    rw [(h2 p f hf hs).2.2]
    rfl
  · have := (h.over hret).2.2.1
    omega
  have hok := (h.good.ok p f hf).1
  refine ⟨hok.order, hok.alone, hok.bounded.1, ?_⟩
  rw [← hok.charged]
  exact hok.bounded.2

/-- A client with two datagrams, the first with the OPEN, until ServeUDP returned. -/
example :
    let s := runFrom (step 1 fun _ => 40) new [.serve, .recv 0 7 10 none, .opened 0 1200 true,
      .flush 0, .recv 0 7 20 none, .wrote 0 .ok none, .halt 0, .readerExits 0, .shutdown 0,
      .endFlow 0 false, .returns 0]
    s.serves.all (·.returned) ∧ s.flows = 0 ∧ s.c.toSession = 2 ∧ s.released = [0] := by
  decide

end PortForward

end Rendr.L4
