import Rendr.L4.IngressTable

/-!
# The invariant of the ingress

* `Units` — the unit of a flow that is gone was released or handed on, or is about to be released,
  exactly once, and `done` is closed once at most.
* `PortForward.All` — the sums, the tables, the units and their bounds together. One lemma for each
  change of a flow, a table or a reader, and from these the reader's steps (`received`, `wrote`).
-/

namespace Rendr.L4

open List Counters

/-! ### The units of the flows -/

/-- The readers that owe the unit of `p`. -/
def owedBy (serves : List Serve) (p : Nat) : Int :=
  (serves.map fun v => if v.reader = .owing (some p) then (1 : Int) else 0).sum

/-- **The units**: released, handed on or owed once, when the flow is gone. -/
structure Units (made : List Flow) (serves : List Serve) (released handed closed : List Nat) :
    Prop where
  once : ∀ (p : Nat) (f : Flow), made[p]? = some f →
    (released.count p : Int) + handed.count p + f.phase.owes + owedBy serves p =
      if f.gone then 1 else 0
  past : ∀ p, made.length ≤ p → released.count p = 0 ∧ handed.count p = 0 ∧ owedBy serves p = 0
  owed : ∀ (i : Nat) (v : Serve) (p : Nat), serves[i]? = some v → v.reader = .owing (some p) →
    p < made.length
  single : closed.Nodup
  ends : ∀ p ∈ closed, ∃ f : Flow, made[p]? = some f ∧ f.gone = true

namespace Units

variable {made : List Flow} {serves serves' : List Serve}
  {released handed closed released' handed' closed' : List Nat} {p i : Nat} {f f' : Flow} {v : Serve}

lemma owedBy_set (hv : serves[i]? = some v) (v' : Serve) (p : Nat) :
    owedBy (serves.set i v') p = owedBy serves p +
      ((if v'.reader = .owing (some p) then 1 else 0) - if v.reader = .owing (some p) then 1 else 0) :=
  sum_map_set _ hv v'

section

variable (h : Units made serves released handed closed)
include h

/-- A flow and its own unit change. -/
lemma move (hf : made[p]? = some f)
    (hp : (released'.count p : Int) + handed'.count p + f'.phase.owes + owedBy serves' p =
      if f'.gone then 1 else 0)
    (hother : ∀ r, r ≠ p → released'.count r = released.count r ∧
      handed'.count r = handed.count r ∧ owedBy serves' r = owedBy serves r)
    (howed : ∀ (j : Nat) (w : Serve) (r : Nat), serves'[j]? = some w → w.reader = .owing (some r) →
      r < made.length)
    (hgone : f.gone = true → f'.gone = true)
    (hclosed : closed' = closed ∨ closed' = p :: closed ∧ f.gone = false ∧ f'.gone = true) :
    Units (made.set p f') serves' released' handed' closed' := by
  have hlt := (List.getElem?_eq_some_iff.mp hf).1
  refine ⟨fun r g hg => ?_, fun r hr => ?_, fun j w r hw hr => ?_, ?_, fun r hr => ?_⟩
  · by_cases hrp : r = p
    · subst hrp
      rw [getElem?_set_self hlt] at hg
      cases hg
      exact hp
    rw [getElem?_set_ne (Ne.symm hrp)] at hg
    obtain ⟨h1, h2, h3⟩ := hother r hrp
    rw [h1, h2, h3]
    exact h.once r g hg
  · rw [length_set] at hr
    obtain ⟨h1, h2, h3⟩ := hother r (by omega)
    rw [h1, h2, h3]
    exact h.past r hr
  · rw [length_set]
    exact howed j w r hw hr
  · rcases hclosed with rfl | ⟨rfl, hin, -⟩
    · exact h.single
    refine nodup_cons.mpr ⟨fun hm => ?_, h.single⟩
    obtain ⟨g, hg, hgg⟩ := h.ends p hm
    rw [hf] at hg
    cases hg
    rw [hin] at hgg
    cases hgg
  have hold : r ∈ closed → ∃ g : Flow, (made.set p f')[r]? = some g ∧ g.gone = true := by
    intro hr
    obtain ⟨g, hg, hgg⟩ := h.ends r hr
    by_cases hrp : r = p
    · subst hrp
      rw [hf] at hg
      cases hg
      exact ⟨f', getElem?_set_self hlt, hgone hgg⟩
    · exact ⟨g, by rw [getElem?_set_ne (Ne.symm hrp)]; exact hg, hgg⟩
  rcases hclosed with rfl | ⟨rfl, -, hout⟩
  · exact hold hr
  · rcases mem_cons.mp hr with rfl | hr
    · exact ⟨f', getElem?_set_self hlt, hout⟩
    · exact hold hr

/-- A flow changes, but not its unit. -/
lemma setFlow (hf : made[p]? = some f) (hgone : f'.gone = f.gone)
    (howes : f'.phase.owes = f.phase.owes) : Units (made.set p f') serves released handed closed :=
  h.move hf (by rw [howes, hgone]; exact h.once p f hf) (fun _ _ => ⟨rfl, rfl, rfl⟩) h.owed
    (fun hg => hgone.trans hg) (.inl rfl)

/-- A serve changes, but not what its reader owes. -/
lemma setServe (hv : serves[i]? = some v) {v' : Serve}
    (hr : ∀ p, v'.reader = .owing (some p) ↔ v.reader = .owing (some p)) :
    Units made (serves.set i v') released handed closed := by
  have howed : ∀ p, owedBy (serves.set i v') p = owedBy serves p := by
    intro p
    rw [owedBy_set hv]
    simp only [hr p]
    omega
  refine ⟨fun p f hf => by rw [howed]; exact h.once p f hf,
    fun p hp => by rw [howed]; exact h.past p hp, fun j w p hw hr' => ?_, h.single, h.ends⟩
  by_cases hj : j = i
  · subst hj
    rw [getElem?_set_self (List.getElem?_eq_some_iff.mp hv).1] at hw
    cases hw
    exact h.owed j v p hv ((hr p).mp hr')
  · rw [getElem?_set_ne (Ne.symm hj)] at hw
    exact h.owed j w p hw hr'

/-- A new flow. -/
lemma enter {g : Flow} (hg : g.gone = false) (hph : g.phase.owes = 0) :
    Units (made ++ [g]) serves released handed closed := by
  refine ⟨fun p f hf => ?_, fun p hp => ?_, fun j w p hw hr => ?_, h.single, fun p hp => ?_⟩
  · rw [getElem?_append] at hf
    split at hf
    · exact h.once p f hf
    rename_i hlt
    rw [getElem?_singleton] at hf
    split at hf
    · cases hf
      obtain ⟨h1, h2, h3⟩ := h.past p (by omega)
      rw [h1, h2, h3, hph, hg]
      rfl
    · cases hf
  · rw [length_append, length_singleton] at hp
    exact h.past p (by omega)
  · have := h.owed j w p hw hr
    rw [length_append]
    omega
  · obtain ⟨f, hf, hgg⟩ := h.ends p hp
    exact ⟨f, by rw [getElem?_append_left (List.getElem?_eq_some_iff.mp hf).1]; exact hf, hgg⟩

end

end Units

/-! ### All of it -/

namespace PortForward

/-- **The invariant of the ingress.** -/
structure All (max k : Int) (s : PortForward) : Prop where
  sums : s.Sums k
  good : Good s.made s.idx s.serves s.next
  units : Units s.made s.serves s.released s.handed s.closed
  flows_le : s.flows ≤ max
  opening_le : s.gauge .opening ≤ ingressOpeningMax

namespace All

variable {max k k' : Int} {s : PortForward} {p i : Nat} {f f' : Flow} {v : Serve}
  {c : Counters → Counters}

lemma setFlow (h : s.All max k) (hf : s.made[p]? = some f) (hok : f'.Ok s.next)
    (hserve : f'.serve = f.serve) (hclient : f'.client = f.client) (hgone : f'.gone = f.gone)
    (hst : f'.state = f.state) (howes : f'.phase.owes = f.phase.owes)
    (hw : f.state ≠ .opening → f'.wrote = f.wrote ∨
      ∀ (v : Serve) d src, s.serves[f.serve]? = some v → v.reader ≠ .writing p d src)
    (hfin : f.phase = .finished → f'.phase = .finished)
    (hstop : f'.phase = .stopping → ∀ v : Serve, s.serves[f.serve]? = some v → v.stopped = true)
    (hp : ((c s.c).total : Int) + f'.pend + k' = s.c.total + f.pend + k) :
    ((s.setFlow p f').count c).All max k' where
  sums := h.sums.setFlow hf (by unfold Flow.unit; rw [hgone, howes]) hst hp
  good := h.good.setFlow hf hok hserve hclient hgone (fun h => hst.trans_ne h) hw hfin hstop
  units := h.units.setFlow hf hgone howes
  flows_le := h.flows_le
  opening_le := h.opening_le

lemma setState (h : s.All max k) (hf : s.made[p]? = some f) {st : FlowState}
    (hok : Flow.Ok s.next { f' with state := st }) (hto : st ≠ .opening)
    (hserve : f'.serve = f.serve) (hclient : f'.client = f.client) (hgone : f'.gone = f.gone)
    (hst : f'.state = f.state) (howes : f'.phase.owes = f.phase.owes) (hw : f'.wrote = f.wrote)
    (hfin : f.phase = .finished → f'.phase = .finished) (hstop : f'.phase ≠ .stopping)
    (hp : ((c s.c).total : Int) + f'.pend + k' = s.c.total + f.pend + k) :
    ((s.setState p f' st).count c).All max k' := by
  have hsums : ((s.setState p f' st).count c).Sums k' :=
    h.sums.setState hf (by unfold Flow.unit; rw [hgone, howes]) hst hp
  obtain ⟨g, heq, hg⟩ := setState_eq s p f' st
  rw [heq] at hsums ⊢
  refine ⟨hsums, ?_, ?_, h.flows_le, ?_⟩
  · exact h.good.setFlow hf hok hserve hclient hgone (fun _ => hto) (fun _ => .inl hw) hfin
      fun he => absurd he hstop
  · have hu : Units (s.made.set p { f' with state := st }) s.serves s.released s.handed s.closed :=
      h.units.setFlow hf hgone howes
    exact hu
  have := h.opening_le
  change g .opening ≤ _
  rw [hg .opening (by decide), if_neg (Ne.symm hto)]
  split <;> omega

lemma setServe (h : s.All max k) (hv : s.serves[i]? = some v) {v' : Serve} (hm : v'.m = v.m)
    (hall : v'.all = v.all) (hstop : v.stopped = true → v'.stopped = true)
    (hr : ReaderOk s.made s.next i v') (howes : v'.reader.owes = v.reader.owes)
    (howed : ∀ p, v'.reader = .owing (some p) ↔ v.reader = .owing (some p))
    (hp : ((c s.c).total : Int) + v'.reader.pend + k' = s.c.total + v.reader.pend + k) :
    ((s.setServe i v').count c).All max k' where
  sums := h.sums.setServe hv howes hp
  good := h.good.setServe hv hm hall hstop hr
  units := h.units.setServe hv howed
  flows_le := h.flows_le
  opening_le := h.opening_le

/-- A counter that needs no other change. -/
lemma gave (h : s.All max k) (hc : ((c s.c).total : Int) + k' = s.c.total + k) :
    (s.count c).All max k' where
  sums := ⟨h.sums.flows, h.sums.gauge, by
    have := h.sums.given
    change (s.next : Int) = (c s.c).total + s.pending + k'
    omega⟩
  good := h.good
  units := h.units
  flows_le := h.flows_le
  opening_le := h.opening_le

/-- **What is left when a flow leaves its table.** -/
structure Left (s : PortForward) (p : Nat) (f f' : Flow) (v : Serve) : Prop where
  made : (s.remove p f').made = s.made.set p { f' with state := .unset, gone := true }
  serves : (s.remove p f').serves = s.serves.set f.serve { v with
    m := v.m.filter fun e => e.1 != f.client, all := (swapRemove v.all s.idx p).1 }
  good : Good (s.remove p f').made (s.remove p f').idx (s.remove p f').serves (s.remove p f').next
  units : (s.remove p f').units = s.units + (f'.phase.owes - 1)
  gauge : ∀ st, st ≠ .unset → (s.remove p f').gauge st = (s.remove p f').inState st
  opening : (s.remove p f').gauge .opening ≤ s.gauge .opening
  pending : (s.remove p f').pending = s.pending + (f'.pend - f.pend)
  same : (s.remove p f').flows = s.flows ∧ (s.remove p f').c = s.c ∧ (s.remove p f').next = s.next
  logs : (s.remove p f').released = s.released ∧ (s.remove p f').handed = s.handed ∧
    (s.remove p f').closed = s.closed

/-- The unit of a flow in its table is nowhere else. -/
lemma unit_here (h : s.All max k) (hf : s.made[p]? = some f) (hin : f.gone = false) :
    f.phase.owes = 0 ∧ (s.released.count p : Int) + s.handed.count p + owedBy s.serves p = 0 := by
  have hunit := (h.good.ok p f hf).1.unit_in hin
  unfold Flow.unit at hunit
  rw [hin] at hunit
  have howes : f.phase.owes = 0 := by simpa using hunit
  have honce := h.units.once p f hf
  rw [hin, howes] at honce
  exact ⟨howes, by simpa using honce⟩

/-- The unit of the flow that left goes once. -/
lemma Left.once (hl : Left s p f f' v) (h : s.All max k) (hf : s.made[p]? = some f)
    (hin : f.gone = false) (hv : s.serves[f.serve]? = some v) {released' handed' closed' : List Nat}
    (hp : (released'.count p : Int) + handed'.count p + f'.phase.owes =
      s.released.count p + s.handed.count p + 1)
    (hother : ∀ r, r ≠ p → released'.count r = s.released.count r ∧ handed'.count r = s.handed.count r)
    (hclosed : closed' = s.closed ∨ closed' = p :: s.closed) :
    Units (s.remove p f').made (s.remove p f').serves released' handed' closed' := by
  rw [hl.made, hl.serves]
  have h1 : Units s.made (s.serves.set f.serve { v with
      m := v.m.filter fun e => e.1 != f.client, all := (swapRemove v.all s.idx p).1 })
      s.released s.handed s.closed := h.units.setServe hv fun _ => Iff.rfl
  have honce := h1.once p f hf
  rw [hin, (h.unit_here hf hin).1] at honce
  refine h1.move hf ?_ (fun r hr => ⟨(hother r hr).1, (hother r hr).2, rfl⟩) h1.owed (fun _ => rfl)
    (hclosed.imp_right fun he => ⟨he, hin, rfl⟩)
  dsimp only
  rw [if_pos rfl]
  simp only [Bool.false_eq_true, if_false] at honce
  omega

section

variable (h : s.All max k) (hf : s.made[p]? = some f) (hin : f.gone = false) (g : Flow)
  (hok : Flow.Ok s.next { g with state := .unset, gone := true }) (hserve : g.serve = f.serve)
  (hclient : g.client = f.client) (hgone : g.gone = f.gone) (hst : g.state = f.state)
  (hw : g.wrote = f.wrote) (hstop : g.phase ≠ .stopping)
include h hf hin hok hserve hclient hgone hst hw hstop

lemma removed (hv : s.serves[f.serve]? = some v) : Left s p f g v := by
  have hin' : g.gone = false := hgone.trans hin
  have hv' : s.serves[g.serve]? = some v := hserve ▸ hv
  obtain ⟨c, heq, hc⟩ := remove_eq (p := p) hin' hv'
  obtain ⟨hu, hs, hpd, hgs, hsame⟩ := remove_sums hf hin' hv'
  refine ⟨by rw [heq], by rw [heq, hserve, hclient], ?_, ?_, fun st hne => ?_, ?_, hpd, hsame,
    by rw [heq]; exact ⟨rfl, rfl, rfl⟩⟩
  · rw [hsame.2.2, heq]
    rw [hserve, hclient] at hok ⊢
    exact h.good.remove hf hin hv hok rfl rfl rfl hw hstop
  · rw [hu, (h.good.ok p f hf).1.unit_in hin]
  · have h1 := h.sums.gauge st hne
    have : g.isIn st = f.isIn st := by unfold Flow.isIn; rw [hst]
    rw [hgs st hne, hs st hne, h1, this]
  · have := hgs .opening (by decide)
    have : 0 ≤ g.isIn .opening := by unfold Flow.isIn; split <;> omega
    omega

/-- A flow leaves its table; its goroutine owes the unit, or released it. -/
lemma leave (hp : ((c s.c).total : Int) + g.pend + k' = s.c.total + f.pend + k) :
    (g.phase.owes = 1 → ((s.remove p g).count c).All max k') ∧
    (g.phase.owes = 0 → All max k' { (s.remove p g).count c with
      flows := s.flows - 1, released := p :: s.released }) := by
  obtain ⟨v, hv⟩ := h.good.serve hf
  have hl := h.removed hf hin g hok hserve hclient hgone hst hw hstop hv
  have hflows := h.sums.flows
  have hle := h.flows_le
  have hgiven : ((s.remove p g).next : Int) = (c (s.remove p g).c).total +
      (s.remove p g).pending + k' := by
    have := h.sums.given
    rw [hl.same.2.1, hl.same.2.2, hl.pending]
    omega
  refine ⟨fun ho => ⟨⟨?_, hl.gauge, hgiven⟩, hl.good, ?_, ?_, hl.opening.trans h.opening_le⟩,
    fun ho => ⟨⟨?_, hl.gauge, hgiven⟩, hl.good, ?_, ?_, hl.opening.trans h.opening_le⟩⟩
  · change (s.remove p g).flows = (s.remove p g).units
    rw [hl.same.1, hl.units]
    omega
  · change Units (s.remove p g).made (s.remove p g).serves (s.remove p g).released
      (s.remove p g).handed (s.remove p g).closed
    rw [hl.logs.1, hl.logs.2.1, hl.logs.2.2]
    exact hl.once h hf hin hv (by rw [ho]) (fun _ _ => ⟨rfl, rfl⟩) (.inl rfl)
  · change (s.remove p g).flows ≤ max
    rw [hl.same.1]
    exact hle
  · change s.flows - 1 = (s.remove p g).units
    rw [hl.units]
    omega
  · change Units (s.remove p g).made (s.remove p g).serves (p :: s.released)
      (s.remove p g).handed (s.remove p g).closed
    rw [hl.logs.2.1, hl.logs.2.2]
    refine hl.once h hf hin hv ?_ (fun r hr => ⟨count_cons_of_ne (Ne.symm hr), rfl⟩) (.inl rfl)
    rw [ho, count_cons_self]
    push_cast
    omega
  · change s.flows - 1 ≤ max
    omega

end

/-- **A spare unit**: taken for a newcomer, whose datagram the reader has in its hand. -/
structure Spare (max : Int) (s : PortForward) : Prop where
  flows : s.flows = s.units + 1
  gauge : ∀ st, st ≠ .unset → s.gauge st = s.inState st
  given : (s.next : Int) = s.c.total + s.pending + 1
  good : Good s.made s.idx s.serves s.next
  flows_le : s.flows ≤ max
  opening_le : s.gauge .opening ≤ ingressOpeningMax

lemma take (h : s.All max 1) (hflows : s.flows < max) :
    Spare max { s with flows := s.flows + 1 } := by
  refine ⟨?_, h.sums.gauge, h.sums.given, h.good, ?_, h.opening_le⟩
  · have := h.sums.flows
    change s.flows + 1 = s.units + 1
    omega
  · change s.flows + 1 ≤ max
    omega

variable {src : Nat} {d : Dgram}

/-- A newcomer takes the unit. -/
lemma Spare.enter (h : Spare max s) (hu : Units s.made s.serves s.released s.handed s.closed)
    (hv : s.serves[i]? = some v) (bare : Nat) (hnone : find v src = none) (hd : d.n < s.next)
    (hst : v.stopped = false) (hidle : v.reader = .idle)
    (hopen : s.gauge .opening < ingressOpeningMax) : (s.enter bare i src d).All max 0 := by
  obtain ⟨g, heq, hg⟩ := enter_eq bare src d hv
  obtain ⟨hun, hs, hpd, hgs, hfl, hcs, hn⟩ := enter_sums bare src d hv
  refine ⟨⟨?_, fun st hne => ?_, ?_⟩, ?_, ?_, ?_, ?_⟩
  · rw [hfl, hun]
    exact h.flows
  · rw [hgs st hne, hs st, h.gauge st hne]
  · rw [hn, hcs, hpd, h.given]
    omega
  · rw [heq]
    exact h.good.enter hv bare hnone hd hst hidle
  · rw [heq]
    have h1 : Units s.made (s.serves.set i { v with
        m := (src, s.made.length) :: v.m, all := v.all ++ [s.made.length] })
        s.released s.handed s.closed := hu.setServe hv fun _ => Iff.rfl
    exact h1.enter rfl rfl
  · rw [hfl]
    exact h.flows_le
  · rw [hgs .opening (by decide), if_pos rfl]
    omega

/-- The reader has to give the unit back. -/
lemma Spare.owe (h : Spare max s) (hv : s.serves[i]? = some v) (hidle : v.reader = .idle)
    {q : Option Nat}
    (hu : Units s.made (s.serves.set i { v with reader := .owing q }) s.released s.handed s.closed)
    (hc : (c s.c).total = s.c.total + 1) : ((s.owe i q).count c).All max 0 := by
  have howe : s.owe i q = s.setServe i { v with reader := .owing q } := by
    unfold PortForward.owe
    rw [hv]
  rw [howe]
  have h1 := units_setServe hv { v with reader := .owing q }
  have h2 := pending_setServe hv { v with reader := .owing q }
  rw [hidle] at h1 h2
  simp only [Reader.owes, Reader.pend] at h1 h2
  have hf := h.flows
  have hg := h.given
  refine ⟨⟨?_, h.gauge, ?_⟩, ?_, hu, h.flows_le, h.opening_le⟩
  · change s.flows = (s.setServe i { v with reader := .owing q }).units
    omega
  · change (s.next : Int) = (c s.c).total + (s.setServe i { v with reader := .owing q }).pending + 0
    rw [hc]
    push_cast
    omega
  · exact h.good.setServe hv rfl rfl (fun hs => hs)
      ((h.good.reader i v hv).goes (by rw [hidle]; decide) (by rintro _ _ _ ⟨⟩))

section

variable (h : s.All max 1)
include h

section

variable (hf : s.made[p]? = some f) (hin : f.gone = false) (hopening : f.state ≠ .opening)
  (hv : s.serves[f.serve]? = some v)
include hf hin hopening hv

/-- A flow that is not opening only leaves its table: its goroutine stays where it is. -/
lemma vacate (ev : Bool) :
    Left s p f { f with evicted := ev } v ∧ Spare max (s.remove p { f with evicted := ev }) := by
  have hok0 := (h.good.ok p f hf).1
  have hph : f.phase ≠ .stopping := by
    intro he
    have := hok0.phase
    unfold Flow.PhaseOk at this
    rw [he] at this
    exact hopening this.1
  have hok : Flow.Ok s.next { f with evicted := ev, state := .unset, gone := true } := by
    refine { hok0 with gone := by simp, phase := ?_ }
    have hseq := hok0.quiet hopening
    have hphase := hok0.phase
    unfold Flow.PhaseOk at hphase ⊢
    dsimp only
    split at hphase <;> rename_i he
    · exact absurd hphase hopening
    · exact absurd hphase.1 hopening
    · exact absurd he hph
    · exact ⟨by decide, hseq⟩
    · exact ⟨.inr rfl, hseq⟩
    · exact ⟨rfl, hseq⟩
    · exact ⟨rfl, hseq⟩
  have hl := h.removed hf hin { f with evicted := ev } hok rfl rfl rfl rfl rfl hph hv
  have hu := hl.units
  have hp := hl.pending
  have hflows := h.sums.flows
  have hgiven := h.sums.given
  have howes : ({ f with evicted := ev } : Flow).phase.owes = 0 := (h.unit_here hf hin).1
  have hpend : ({ f with evicted := ev } : Flow).pend = f.pend := rfl
  refine ⟨hl, ?_, hl.gauge, ?_, hl.good, ?_, hl.opening.trans h.opening_le⟩
  · rw [hl.same.1]
    omega
  · rw [hl.same.2.1, hl.same.2.2]
    omega
  · rw [hl.same.1]
    exact h.flows_le

/-- A newcomer takes the place and the unit of a flow of the table. -/
lemma swap (bare : Nat)
    (hnone : find { v with m := v.m.filter fun e => e.1 != f.client } src = none)
    (hd : d.n < s.next) (hst : v.stopped = false) (hidle : v.reader = .idle)
    (hopen : s.gauge .opening < ingressOpeningMax) (ev : Bool) {closed' : List Nat}
    (hclosed : closed' = s.closed ∨ closed' = p :: s.closed) :
    ({ s.remove p { f with evicted := ev } with
      handed := p :: s.handed, closed := closed' }.enter bare f.serve src d).All max 0 := by
  obtain ⟨hl, hs⟩ := h.vacate hf hin hopening hv ev
  have howes : ({ f with evicted := ev } : Flow).phase.owes = 0 := (h.unit_here hf hin).1
  have hs' : Spare max { s.remove p { f with evicted := ev } with
      handed := p :: s.handed, closed := closed' } :=
    { hs with }
  have hv1 : (s.remove p { f with evicted := ev }).serves[f.serve]? = some { v with
      m := v.m.filter fun e => e.1 != f.client, all := (swapRemove v.all s.idx p).1 } := by
    rw [hl.serves]
    exact getElem?_set_self (List.getElem?_eq_some_iff.mp hv).1
  refine hs'.enter ?_ hv1 bare hnone ?_ hst hidle (lt_of_le_of_lt hl.opening hopen)
  · change Units (s.remove p { f with evicted := ev }).made (s.remove p { f with evicted := ev }).serves
      (s.remove p { f with evicted := ev }).released (p :: s.handed) closed'
    rw [hl.logs.1]
    refine hl.once h hf hin hv ?_ (fun r hr => ⟨rfl, count_cons_of_ne (Ne.symm hr)⟩) hclosed
    rw [howes, count_cons_self]
    push_cast
    omega
  · change d.n < (s.remove p { f with evicted := ev }).next
    rw [hl.same.2.2]
    exact hd

/-- A flow leaves the table, and the reader owes its unit. -/
lemma drop (hidle : v.reader = .idle) (hc : (c s.c).total = s.c.total + 1) :
    (((s.remove p f).owe f.serve (some p)).count c).All max 0 := by
  obtain ⟨hl, hs⟩ := h.vacate hf hin hopening hv f.evicted
  obtain ⟨howes, honce⟩ := h.unit_here hf hin
  have hlt := (List.getElem?_eq_some_iff.mp hv).1
  have hv1 : (s.remove p f).serves[f.serve]? = some { v with
      m := v.m.filter fun e => e.1 != f.client, all := (swapRemove v.all s.idx p).1 } := by
    rw [hl.serves]
    exact getElem?_set_self hlt
  refine hs.owe hv1 hidle ?_ (by rw [hl.same.2.1]; exact hc)
  rw [hl.made, hl.serves, set_set, hl.logs.1, hl.logs.2.1, hl.logs.2.2]
  refine h.units.move hf ?_ (fun r hr => ⟨rfl, rfl, ?_⟩) (fun j w r hw hr => ?_) (fun _ => rfl)
    (.inl rfl)
  · rw [Units.owedBy_set hv, hidle]
    rw [howes, if_pos rfl, if_pos rfl, if_neg nofun]
    omega
  · rw [Units.owedBy_set hv, hidle, if_neg (by simpa using Ne.symm hr), if_neg nofun]
    omega
  by_cases hj : j = f.serve
  · rw [hj, getElem?_set_self hlt] at hw
    cases hw
    cases hr
    exact (List.getElem?_eq_some_iff.mp hf).1
  · rw [getElem?_set_ne (Ne.symm hj)] at hw
    exact h.units.owed j w r hw hr

end

/-! ### The reader -/

lemma admitted (hv : s.serves[i]? = some v) (hidle : v.reader = .idle) (bare : Nat)
    (hnone : find v src = none) (hd : d.n < s.next) (pick : Option Nat) :
    (s.admitFlow max bare i src d pick).All max 0 := by
  have hex : v.reader ≠ .exited := by rw [hidle]; decide
  have hst := (h.good.reader i v hv).running hex
  unfold admitFlow
  split
  next hflows =>
    split
    next hopen => exact (h.take hflows).enter h.units hv bare hnone hd hst hidle hopen
    refine (h.take hflows).owe hv hidle (h.units.setServe hv fun q => ?_)
      (by simp only [total]; omega)
    rw [hidle]
    constructor <;> rintro ⟨⟩
  split
  · exact h.gave (by simp only [total]; push_cast; omega)
  rename_i p
  split
  next hmay =>
    split
    next hopen =>
      unfold mayReplace at hmay
      unfold evict
      split at hmay
      · cases hmay
      rename_i f hf
      simp only [Bool.and_eq_true, Bool.or_eq_true, beq_iff_eq, Bool.not_eq_true'] at hmay
      obtain ⟨⟨hserve, hin⟩, hstate⟩ := hmay
      subst hserve
      have hne : f.state ≠ .opening := by
        rcases hstate with hs | hs <;> (rw [hs]; decide)
      refine h.swap hf hin hne hv bare ?_ hd hst hidle hopen _ (.inr rfl)
      -- the client has no entry, with or without the victim's
      unfold find at hnone ⊢
      rw [Option.map_eq_none_iff, find?_eq_none] at hnone ⊢
      exact fun e he => hnone e (mem_of_mem_filter he)
    · exact h.gave (by simp only [total]; push_cast; omega)
  · exact h.gave (by simp only [total]; push_cast; omega)

lemma handled (hv : s.serves[i]? = some v) (hidle : v.reader = .idle) (bare : Nat)
    (hd : d.n + 1 = s.next) (hall : ∀ (p : Nat) (f : Flow), s.made[p]? = some f → f.Ok d.n)
    (pick : Option Nat) : (s.datagram max bare i v src d pick).All max 0 := by
  have hex : v.reader ≠ .exited := by rw [hidle]; decide
  have hst := (h.good.reader i v hv).running hex
  unfold datagram
  split
  next hnone => exact h.admitted hv hidle bare hnone (by omega) pick
  rename_i p hfind
  obtain ⟨f, hf, hserve, hin, hclient⟩ := h.good.found hv hfind
  have hok := hall p f hf
  split
  next hno =>
    rw [hf] at hno
    cases hno
  rename_i f1 hf1
  rw [hf] at hf1
  cases hf1
  split
  next hstate =>
    have hph : f.phase ≠ .stopping := by
      intro he
      have := h.good.halted p f hf he v (hserve ▸ hv)
      rw [hst] at this
      cases this
    obtain ⟨hok', hpend⟩ := hok.push hstate hph rfl
    rw [hd] at hok'
    have hfields : (f.push d).1.serve = f.serve ∧ (f.push d).1.client = f.client ∧
        (f.push d).1.gone = f.gone ∧ (f.push d).1.state = f.state ∧
        (f.push d).1.phase = f.phase := by
      unfold Flow.push
      split <;> exact ⟨rfl, rfl, rfl, rfl, rfl⟩
    obtain ⟨e1, e2, e3, e4, e5⟩ := hfields
    refine h.setFlow hf hok' e1 e2 e3 e4 (by rw [e5]) (fun hne => absurd hstate hne)
      (fun hfin => e5.trans hfin) (fun hs => absurd (e5.symm.trans hs) hph) ?_
    simp only [total]
    push_cast
    omega
  · exact h.gave (by simp only [total]; push_cast; omega)
  rename_i hne1 hne2
  have hne : f.state ≠ .opening := fun he => hne1 he
  have hall' : (s.setServe i { v with reader := .writing p d src }).All max 0 := by
    have hreader : ReaderOk s.made s.next i { v with reader := .writing p d src } := by
      refine (h.good.reader i v hv).goes hex fun r d' src' hw => ?_
      cases hw
      refine ⟨f, hf, hserve, hne, fun n hn => hok.past n (mem_append_left _ hn), by omega,
        fun q hq => ?_⟩
      -- the entry that was found is the client's only one
      obtain ⟨e, he, rfl⟩ := Option.map_eq_some_iff.mp hfind
      have hsrc : e.1 = src := by simpa using find?_some he
      have := inj_on_of_nodup_map (h.good.table i v hv).clients hq
        (mem_of_find?_eq_some he) hsrc.symm
      exact congrArg Prod.snd this
    have hres : ((s.setServe i { v with reader := .writing p d src }).count id).All max 0 := by
      refine h.setServe hv rfl rfl (fun hs => hs) hreader (by rw [hidle]; rfl) (fun q => ?_) ?_
      · rw [hidle]
        constructor <;> rintro ⟨⟩
      · rw [hidle]
        simp only [Reader.pend, id]
        omega
    exact hres
  exact hall'

end

/-- A datagram arrives. -/
lemma received (h : s.All max 0) (hv : s.serves[i]? = some v) (hidle : v.reader = .idle)
    (bare src len : Nat) (pick : Option Nat) :
    ({ s with next := s.next + 1 }.datagram max bare i v src ⟨s.next, len⟩ pick).All max 0 := by
  have h1 : All max 1 { s with next := s.next + 1 } := by
    refine { h with sums := ⟨h.sums.flows, h.sums.gauge, ?_⟩, good := h.good.later (Nat.le_succ _) }
    have := h.sums.given
    change ((s.next + 1 : Nat) : Int) = s.c.total + s.pending + 1
    push_cast
    omega
  exact h1.handled hv hidle bare rfl (fun p f hf => (h.good.ok p f hf).1) pick

/-- The reader's write returned. -/
lemma wrote (h : s.All max 0) (hv : s.serves[i]? = some v) (hw : v.reader = .writing p d src)
    (bare : Nat) (w : Written) (pick : Option Nat) :
    (s.readerWrote max bare i v p d src w pick).All max 0 := by
  obtain ⟨f, hf, hserve, hne, hlt, hnext, honly⟩ := (h.good.reader i v hv).writing p d src hw
  have hok := (h.good.ok p f hf).1
  have hex : v.reader ≠ .exited := by rw [hw]; rintro ⟨⟩
  have hst := (h.good.reader i v hv).running hex
  -- the reader is idle again, with the datagram in its hand
  have h1 : (s.setServe i { v with reader := .idle }).All max 1 := by
    have hreader : ReaderOk s.made s.next i { v with reader := .idle } :=
      (h.good.reader i v hv).goes hex (by rintro _ _ _ ⟨⟩)
    have hres : ((s.setServe i { v with reader := .idle }).count id).All max 1 := by
      refine h.setServe hv rfl rfl (fun hs => hs) hreader (by rw [hw]; rfl) (fun q => ?_) ?_
      · rw [hw]
        constructor <;> rintro ⟨⟩
      · rw [hw]
        simp only [Reader.pend, id]
        omega
    exact hres
  have hlti := (List.getElem?_eq_some_iff.mp hv).1
  have hv1 : (s.setServe i { v with reader := .idle }).serves[i]? =
      some { v with reader := .idle } := getElem?_set_self hlti
  have hf1 : (s.setServe i { v with reader := .idle }).made[p]? = some f := hf
  unfold readerWrote
  rw [hf]
  cases w with
  | ok =>
    have hseq := hok.quiet hne
    have hord := hok.order
    have hpast := hok.past
    rw [hseq, map_nil, append_nil] at hord hpast
    have hok' : Flow.Ok s.next { f with wrote := f.wrote ++ [d.n] } := by
      have hseq' : Flow.seq { f with wrote := f.wrote ++ [d.n] } = [] := hseq
      refine { hok with order := ?_, past := ?_ }
      · rw [hseq', map_nil, append_nil]
        refine pairwise_append.mpr ⟨hord, pairwise_singleton .., fun a ha b hb => ?_⟩
        rw [mem_singleton.mp hb]
        exact hlt a ha
      rw [hseq', map_nil, append_nil]
      intro n hn
      rcases mem_append.mp hn with hn | hn
      · exact hpast n hn
      · rw [mem_singleton.mp hn]
        exact hnext
    refine h1.setFlow hf1 hok' rfl rfl rfl rfl rfl (fun _ => .inr fun v' d' src' hv' hw' => ?_) id
      (fun hs w hw' => h1.good.halted p f hf1 hs w hw') ?_
    · rw [hserve, hv1] at hv'
      cases hv'
      cases hw'
    have : ({ f with wrote := f.wrote ++ [d.n] } : Flow).pend = f.pend := rfl
    simp only [total]
    push_cast
    omega
  | tooLarge => exact h1.gave (by simp only [total]; push_cast; omega)
  | failed early =>
    dsimp only
    unfold replace
    split
    · -- the entry went meanwhile, and only the reader adds entries
      rename_i hgone
      have hnone : find { v with reader := .idle } src = none := by
        cases hfind : find { v with reader := .idle } src with
        | none => rfl
        | some q =>
          obtain ⟨e, he, rfl⟩ := Option.map_eq_some_iff.mp hfind
          have hsrc : e.1 = src := by simpa using find?_some he
          have hq := honly e.2 (hsrc ▸ mem_of_find?_eq_some he)
          refine absurd ?_ hgone
          unfold find
          rw [he, Option.map_some, hq]
      unfold datagram
      rw [hnone]
      exact h1.admitted hv1 rfl bare hnone hnext pick
    rename_i hfind
    rw [not_not] at hfind
    obtain ⟨f1, hf1', hs1, hin, hclient⟩ := h1.good.found hv1 hfind
    rw [hf1] at hf1'
    cases hf1'
    subst hserve
    have hunset : f.state ≠ .unset := fun he => by rw [hok.gone.mpr he] at hin; cases hin
    split
    · exact h1.gave (by simp only [total]; push_cast; omega)
    rename_i hheld
    have hpump : f.phase = .pumping := by
      have := hok.phase
      unfold Flow.PhaseOk at this
      split at this <;> rename_i he
      · exact absurd this hne
      · exact absurd this.1 hne
      · exact absurd this.1 hne
      · exact he
      · exact absurd this.1 (by rintro (h | h) <;> contradiction)
      · exact absurd this.1 hunset
      · exact absurd this.1 hunset
    split
    · refine h1.setState hf1 ?_ (by decide) rfl rfl rfl rfl rfl rfl
        (fun he => absurd (hpump.symm.trans he) (by decide)) (by rw [hpump]; decide) ?_
      · refine hok.change (by simp [hin]) ?_ (.inl ⟨rfl, rfl⟩) (List.Sublist.refl _) hok.alone
        have hseq : ({ f with peerEnd := true, state := .held } : Flow).seq = [] := hok.quiet hne
        unfold Flow.PhaseOk
        rw [hpump] at hseq ⊢
        exact ⟨by simp, hseq⟩
      have : ({ f with peerEnd := true } : Flow).pend = f.pend := rfl
      simp only [total]
      push_cast
      omega
    split
    next hopen =>
      obtain ⟨g, heq, -⟩ := remove_eq (p := p) hin hv1
      have hcl : ((s.setServe f.serve { v with reader := .idle }).remove p f).closed = s.closed := by
        rw [heq]
        rfl
      have hnone : find { v with
          reader := .idle, m := v.m.filter fun e => e.1 != f.client } src = none := by
        unfold find
        rw [Option.map_eq_none_iff, find?_eq_none]
        intro e he
        have hne' := (mem_filter.mp he).2
        rw [hclient] at hne'
        simpa using hne'
      have := h1.swap hf1 hin hne hv1 bare hnone hnext hst rfl hopen f.evicted (.inl rfl)
      rw [show (s.setServe f.serve { v with reader := .idle }).closed =
        ((s.setServe f.serve { v with reader := .idle }).remove p f).closed from hcl.symm] at this
      exact this
    · exact h1.drop hf1 hin hne hv1 rfl (by simp only [total]; omega)

end All

end PortForward

end Rendr.L4
