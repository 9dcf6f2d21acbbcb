import Rendr.L4.IngressSums

/-!
# The tables and the queues of the ingress

* `Flow.Ok` — the phase of a flow's goroutine fits the flow's state, its queue is within its bounds,
  and what it wrote and what waits is in the order of arrival.
* `Good` — every flow is `Ok`, every table has the flows of its serve that are not gone, by client
  and densely, and a reader writes to a flow that opened.
-/

namespace Rendr.L4

open List Flow

/-! ### Queues -/

/-- The charge of some copies. -/
def charges (q : List Dgram) : Nat := (q.map fun d => ingressClass d.len).sum

/-- The loop of `push` drops from the front until the copy has room. -/
lemma makeRoom_spec {charge : Nat} (hc : charge ≤ ingressQueueBytes) (q : List Dgram) {b : Nat}
    (hb : b = charges q) (hlen : q.length ≤ ingressQueueLen) :
    (makeRoom charge q b).1 <:+ q ∧
    (makeRoom charge q b).2.1 = charges (makeRoom charge q b).1 ∧
    (makeRoom charge q b).2.2 + (makeRoom charge q b).1.length = q.length ∧
    (makeRoom charge q b).1.length < ingressQueueLen ∧
    (makeRoom charge q b).2.1 + charge ≤ ingressQueueBytes := by
  induction q generalizing b with
  | nil =>
    subst hb
    refine ⟨suffix_refl _, rfl, rfl, by simp [makeRoom, ingressQueueLen], ?_⟩
    simpa [makeRoom, charges] using hc
  | cons d q ih =>
    rw [makeRoom]
    split
    · have hb' : b - ingressClass d.len = charges q := by
        rw [hb]
        simp [charges]
      rw [length_cons] at hlen
      obtain ⟨h1, h2, h3, h4, h5⟩ := ih hb' (by omega)
      dsimp only
      refine ⟨h1.trans (suffix_cons d q), h2, ?_, h4, h5⟩
      rw [length_cons]
      omega
    next hno =>
      rw [not_or] at hno
      exact ⟨suffix_refl _, hb, Nat.zero_add _, by dsimp only; omega, by dsimp only; omega⟩

/-! ### One flow -/

/-- The state of a flow fits its goroutine's phase. -/
def Flow.PhaseOk (f : Flow) : Prop :=
  match f.phase with
  | .dialing => f.state = .opening
  | .flushing _ _ => f.state = .opening ∧ f.first = none
  | .stopping => f.state = .opening ∧ f.seq = []
  | .pumping => f.state ≠ .opening ∧ f.seq = []
  | .holding => (f.state = .held ∨ f.state = .unset) ∧ f.seq = []
  | .owing _ => f.state = .unset ∧ f.seq = []
  | .finished => f.state = .unset ∧ f.seq = []

structure Flow.Ok (next : Nat) (f : Flow) : Prop where
  gone : f.gone = true ↔ f.state = .unset
  phase : f.PhaseOk
  charged : f.qBytes = charges f.q
  bounded : f.q.length ≤ ingressQueueLen ∧ f.qBytes ≤ ingressQueueBytes
  order : (f.wrote ++ f.seq.map Dgram.n).Pairwise (· < ·)
  past : ∀ n ∈ f.wrote ++ f.seq.map Dgram.n, n < next
  alone : f.first = none ∨ f.firstQ = none

namespace Flow.Ok

variable {next : Nat} {f : Flow}

section

variable (h : f.Ok next)
include h

lemma later {next' : Nat} (hle : next ≤ next') : f.Ok next' :=
  { h with past := fun n hn => lt_of_lt_of_le (h.past n hn) hle }

/-- A flow changes its phase and its state; what waits and what it wrote keeps its order. -/
lemma change {f' : Flow} (hgone : f'.gone = true ↔ f'.state = .unset) (hphase : f'.PhaseOk)
    (hq : f'.q = f.q ∧ f'.qBytes = f.qBytes ∨ f'.q = [] ∧ f'.qBytes = 0)
    (hsub : (f'.wrote ++ f'.seq.map Dgram.n).Sublist (f.wrote ++ f.seq.map Dgram.n))
    (halone : f'.first = none ∨ f'.firstQ = none) : f'.Ok next where
  gone := hgone
  phase := hphase
  charged := by
    rcases hq with ⟨h1, h2⟩ | ⟨h1, h2⟩
    · rw [h1, h2]
      exact h.charged
    · rw [h1, h2]
      rfl
  bounded := by
    rcases hq with ⟨h1, h2⟩ | ⟨h1, h2⟩
    · rw [h1, h2]
      exact h.bounded
    · rw [h1, h2]
      exact ⟨Nat.zero_le _, Nat.zero_le _⟩
  order := h.order.sublist hsub
  past n hn := h.past n (hsub.subset hn)
  alone := halone

/-- Nothing waits for a flow that is not opening. -/
lemma quiet (hst : f.state ≠ .opening) : f.seq = [] := by
  have := h.phase
  unfold PhaseOk at this
  split at this
  · exact absurd this hst
  · exact absurd this.1 hst
  · exact this.2
  · exact this.2
  · exact this.2
  · exact this.2
  · exact this.2

/-- A flow that opens is in the table. -/
lemma in_table (hst : f.state = .opening) : f.gone = false := by
  by_contra hg
  have := h.gone.mp (by simpa using hg)
  rw [hst] at this
  cases this

lemma dialing (hph : f.phase = .dialing) : f.state = .opening := by
  have := h.phase
  unfold PhaseOk at this
  rw [hph] at this
  exact this

lemma flushing {b : List Dgram} {e : Bool} (hph : f.phase = .flushing b e) :
    f.state = .opening ∧ f.first = none := by
  have := h.phase
  unfold PhaseOk at this
  rw [hph] at this
  exact this

/-- The unit of a flow in the table. -/
lemma unit_in (hgone : f.gone = false) : f.unit = 1 := by
  have hst : f.state ≠ .unset := fun he => by rw [h.gone.mpr he] at hgone; cases hgone
  have hp := h.phase
  unfold unit
  rw [hgone]
  unfold PhaseOk at hp
  split at hp <;> rename_i he <;> rw [he]
  all_goals first | rfl | exact absurd hp.1 hst

/-- A datagram is queued behind all others. -/
lemma push (hst : f.state = .opening) (hph : f.phase ≠ .stopping) {d : Dgram} (hd : d.n = next) :
    (f.push d).1.Ok (next + 1) ∧
      ((f.push d).2 : Int) + (f.push d).1.pend = f.pend + 1 := by
  set room := makeRoom (ingressClass d.len) f.q f.qBytes
  unfold Flow.push
  split
  · exact ⟨h.later (Nat.le_succ _), by dsimp only; omega⟩
  rename_i hc
  rw [not_lt] at hc
  obtain ⟨h1, h2, h3, h4, h5⟩ := makeRoom_spec hc f.q h.charged h.bounded.1
  have hsub : (room.1).Sublist f.q := h1.sublist
  have hsub' : (f.wrote ++ (seq { f with
      q := room.1, qBytes := 0 }).map Dgram.n).Sublist
      (f.wrote ++ f.seq.map Dgram.n) := by
    refine List.Sublist.append_left (List.Sublist.map _ ?_) _
    exact ((hsub.append_left _).append_left _).append_left _
  have hlist : f.wrote ++ (seq { f with
      q := room.1 ++ [d]
      qBytes := room.2.1 + ingressClass d.len }).map
        Dgram.n = (f.wrote ++ (seq { f with
      q := room.1, qBytes := 0 }).map Dgram.n) ++ [next] := by
    simp [seq, hd]
  refine ⟨⟨h.gone, ?_, ?_, ⟨?_, h5⟩, ?_, ?_, h.alone⟩, ?_⟩
  · have := h.phase
    unfold PhaseOk at this ⊢
    dsimp only
    split at this <;> rename_i he
    · exact this
    · exact this
    · exact absurd he hph
    · exact absurd hst this.1
    · rcases this.1 with hs | hs <;> (rw [hs] at hst; cases hst)
    · exact absurd (this.1.symm.trans hst) (by decide)
    · exact absurd (this.1.symm.trans hst) (by decide)
  · dsimp only
    rw [h2]
    simp [charges]
  · dsimp only
    rw [length_append, length_singleton]
    omega
  · rw [hlist]
    refine pairwise_append.mpr ⟨h.order.sublist hsub', pairwise_singleton .., ?_⟩
    intro a ha b hb
    rw [mem_singleton.mp hb]
    exact h.past a (hsub'.subset ha)
  · rw [hlist]
    intro n hn
    rcases mem_append.mp hn with hn | hn
    · exact lt_of_lt_of_le (h.past n (hsub'.subset hn)) (Nat.le_succ _)
    · rw [mem_singleton.mp hn]
      exact Nat.lt_succ_self _
  · simp only [pend, seq, length_append, length_singleton]
    omega

end

end Flow.Ok

/-! ### All flows and tables -/

/-- **The table of serve `i`**: the flows of the serve that are not gone, once for each client. -/
structure TableOk (made : List Flow) (idx : Nat → Nat) (i : Nat) (v : Serve) : Prop where
  clients : (v.m.map Prod.fst).Nodup
  entries : ∀ c p, (c, p) ∈ v.m ↔
    ∃ f : Flow, made[p]? = some f ∧ f.serve = i ∧ f.gone = false ∧ f.client = c
  indexed : Indexed v.all idx
  dense : ∀ p, p ∈ v.all ↔ ∃ c, (c, p) ∈ v.m

structure ReaderOk (made : List Flow) (next i : Nat) (v : Serve) : Prop where
  stopped : v.stopped = true → v.reader = .exited
  returned : v.returned = true → v.stopped = true ∧
    ∀ (p : Nat) (f : Flow), made[p]? = some f → f.serve = i → f.phase = .finished
  writing : ∀ p d src, v.reader = .writing p d src → ∃ f : Flow, made[p]? = some f ∧ f.serve = i ∧
    f.state ≠ .opening ∧ (∀ n ∈ f.wrote, n < d.n) ∧ d.n < next ∧ ∀ q, (src, q) ∈ v.m → q = p

namespace ReaderOk

variable {made : List Flow} {next i : Nat} {v : Serve}

lemma running (h : ReaderOk made next i v) (hr : v.reader ≠ .exited) : v.stopped = false := by
  by_contra hs
  exact hr (h.stopped (by simpa using hs))

/-- The reader of a serve that is not stopped goes on. -/
lemma goes (h : ReaderOk made next i v) (hr : v.reader ≠ .exited) {r : Reader}
    (hw : ∀ p d src, r = .writing p d src → ∃ f : Flow, made[p]? = some f ∧ f.serve = i ∧
      f.state ≠ .opening ∧ (∀ n ∈ f.wrote, n < d.n) ∧ d.n < next ∧ ∀ q, (src, q) ∈ v.m → q = p) :
    ReaderOk made next i { v with reader := r } := by
  have hst := h.running hr
  refine ⟨fun hs => absurd (hst.symm.trans hs) (by decide), fun hret => ?_, hw⟩
  exact absurd (hst.symm.trans (h.returned hret).1) (by decide)

end ReaderOk

structure Good (made : List Flow) (idx : Nat → Nat) (serves : List Serve) (next : Nat) : Prop where
  ok : ∀ (p : Nat) (f : Flow), made[p]? = some f → f.Ok next ∧ f.serve < serves.length
  halted : ∀ (p : Nat) (f : Flow), made[p]? = some f → f.phase = .stopping →
    ∀ v : Serve, serves[f.serve]? = some v → v.stopped = true
  reader : ∀ (i : Nat) (v : Serve), serves[i]? = some v → ReaderOk made next i v
  table : ∀ (i : Nat) (v : Serve), serves[i]? = some v → TableOk made idx i v

namespace Good

variable {made : List Flow} {idx : Nat → Nat} {serves : List Serve} {next p i : Nat} {f f' : Flow}
  {v : Serve}

section

variable (h : Good made idx serves next)
include h

/-- The serve of a flow. -/
lemma serve (hf : made[p]? = some f) : ∃ v : Serve, serves[f.serve]? = some v :=
  ⟨_, getElem?_eq_getElem (h.ok p f hf).2⟩

lemma later {next' : Nat} (hle : next ≤ next') :
    Good made idx serves next' where
  ok p f hf := ⟨(h.ok p f hf).1.later hle, (h.ok p f hf).2⟩
  halted := h.halted
  reader i v hv := by
    refine ⟨(h.reader i v hv).stopped, (h.reader i v hv).returned, fun p d src hr => ?_⟩
    obtain ⟨f, h1, h2, h3, h4, h5⟩ := (h.reader i v hv).writing p d src hr
    exact ⟨f, h1, h2, h3, h4, lt_of_lt_of_le h5.1 hle, h5.2⟩
  table := h.table

/-- A flow of a client that the table has. -/
lemma found (hv : serves[i]? = some v) {src : Nat} (hfind : PortForward.find v src = some p) :
    ∃ f : Flow, made[p]? = some f ∧ f.serve = i ∧ f.gone = false ∧ f.client = src := by
  unfold PortForward.find at hfind
  obtain ⟨e, he, rfl⟩ := Option.map_eq_some_iff.mp hfind
  have hid : e.1 = src := by simpa using find?_some he
  exact ((h.table i v hv).entries src e.2).mp (hid ▸ mem_of_find?_eq_some he)

/-- A flow changes within its table. -/
lemma setFlow (hf : made[p]? = some f) (hok : f'.Ok next) (hserve : f'.serve = f.serve)
    (hclient : f'.client = f.client) (hgone : f'.gone = f.gone)
    (hst : f.state ≠ .opening → f'.state ≠ .opening)
    (hw : f.state ≠ .opening → f'.wrote = f.wrote ∨ ∀ (v : Serve) d src,
      serves[f.serve]? = some v → v.reader ≠ .writing p d src)
    (hfin : f.phase = .finished → f'.phase = .finished)
    (hstop : f'.phase = .stopping → ∀ v : Serve, serves[f.serve]? = some v → v.stopped = true) :
    Good (made.set p f') idx serves next := by
  have hp := (List.getElem?_eq_some_iff.mp hf).1
  refine ⟨fun r g hg => ?_, fun r g hg => ?_, fun i v hv => ?_, fun i v hv => ?_⟩
  · rcases getElem?_set_cases hg with ⟨-, rfl⟩ | ⟨-, hg⟩
    · exact ⟨hok, hserve ▸ (h.ok p f hf).2⟩
    · exact h.ok r g hg
  · rcases getElem?_set_cases hg with ⟨-, rfl⟩ | ⟨-, hg⟩
    · rw [hserve]
      exact hstop
    · exact h.halted r g hg
  · have hr := h.reader i v hv
    refine ⟨hr.stopped, fun hret => ⟨(hr.returned hret).1, fun r g hg hs => ?_⟩,
      fun r d src hw' => ?_⟩
    · rcases getElem?_set_cases hg with ⟨-, rfl⟩ | ⟨-, hg⟩
      · exact hfin ((hr.returned hret).2 p f hf (hserve ▸ hs))
      · exact (hr.returned hret).2 r g hg hs
    obtain ⟨g, hg, h2, h3, h4, h5⟩ := hr.writing r d src hw'
    by_cases hrp : r = p
    · subst hrp
      rw [hf] at hg
      cases hg
      refine ⟨f', getElem?_set_self hp, hserve.trans h2, hst h3, ?_, h5⟩
      rcases hw h3 with he | hno
      · rw [he]
        exact h4
      · exact absurd hw' (hno v d src (h2 ▸ hv))
    · exact ⟨g, by rw [getElem?_set_ne (Ne.symm hrp)]; exact hg, h2, h3, h4, h5⟩
  have ht := h.table i v hv
  refine { ht with entries := fun c r => ?_ }
  rw [ht.entries]
  by_cases hrp : r = p
  · subst hrp
    rw [getElem?_set_self hp, hf]
    constructor
    · rintro ⟨g, hg, h1, h2, h3⟩
      cases hg
      exact ⟨f', rfl, hserve.trans h1, hgone.trans h2, hclient.trans h3⟩
    · rintro ⟨g, hg, h1, h2, h3⟩
      cases hg
      exact ⟨f, rfl, hserve ▸ h1, hgone ▸ h2, hclient ▸ h3⟩
  · rw [getElem?_set_ne (Ne.symm hrp)]

/-- A serve changes, but not its table. -/
lemma setServe (hv : serves[i]? = some v) {v' : Serve} (hm : v'.m = v.m) (hall : v'.all = v.all)
    (hstop : v.stopped = true → v'.stopped = true) (hr : ReaderOk made next i v') :
    Good made idx (serves.set i v') next := by
  have hi := (List.getElem?_eq_some_iff.mp hv).1
  refine ⟨fun p f hf => ⟨(h.ok p f hf).1, by rw [length_set]; exact (h.ok p f hf).2⟩,
    fun p f hf hs w hw => ?_, fun j w hw => ?_, fun j w hw => ?_⟩
  · rcases getElem?_set_cases hw with ⟨hj, rfl⟩ | ⟨-, hw⟩
    · exact hstop (h.halted p f hf hs v (hj ▸ hv))
    · exact h.halted p f hf hs w hw
  · rcases getElem?_set_cases hw with ⟨rfl, rfl⟩ | ⟨-, hw⟩
    · exact hr
    · exact h.reader j w hw
  rcases getElem?_set_cases hw with ⟨rfl, rfl⟩ | ⟨-, hw⟩
  · have ht := h.table j v hv
    exact ⟨hm ▸ ht.clients, hm ▸ ht.entries, hall ▸ ht.indexed, by rw [hm, hall]; exact ht.dense⟩
  · exact h.table j w hw

/-- A flow leaves the table of its serve. -/
lemma remove (hf : made[p]? = some f) (hin : f.gone = false) (hv : serves[f.serve]? = some v)
    (hok : f'.Ok next) (hserve : f'.serve = f.serve) (hclient : f'.client = f.client)
    (hgone : f'.gone = true) (hw : f'.wrote = f.wrote) (hph : f'.phase ≠ .stopping) :
    Good (made.set p f') (swapRemove v.all idx p).2
      (serves.set f.serve { v with
        m := v.m.filter fun e => e.1 != f.client, all := (swapRemove v.all idx p).1 }) next := by
  have hp := (List.getElem?_eq_some_iff.mp hf).1
  have hunset : f'.state = .unset := hok.gone.mp hgone
  have ht := h.table _ v hv
  have hmem : (f.client, p) ∈ v.m := (ht.entries f.client p).mpr ⟨f, hf, rfl, hin, rfl⟩
  have hall : p ∈ v.all := (ht.dense p).mpr ⟨_, hmem⟩
  obtain ⟨hidx, hrest⟩ := ht.indexed.swapRemove hall
  -- the reader facts of a serve, whichever table it has
  have hreader : ∀ (j : Nat) (w : Serve), serves[j]? = some w → ReaderOk (made.set p f') next j w := by
    intro j w hw'
    have hr := h.reader j w hw'
    refine ⟨hr.stopped, fun hret => ⟨(hr.returned hret).1, fun r g hg hs => ?_⟩,
      fun r d src hwr => ?_⟩
    · rcases getElem?_set_cases hg with ⟨-, rfl⟩ | ⟨-, hg⟩
      · -- a flow of a serve that returned is gone already
        have := (hr.returned hret).2 p f hf (hserve ▸ hs)
        have hphase := (h.ok p f hf).1.phase
        unfold Flow.PhaseOk at hphase
        rw [this] at hphase
        have := (h.ok p f hf).1.gone.mpr hphase.1
        rw [hin] at this
        cases this
      · exact (hr.returned hret).2 r g hg hs
    obtain ⟨g, hg, h2, h3, h4, h5⟩ := hr.writing r d src hwr
    by_cases hrp : r = p
    · subst hrp
      rw [hf] at hg
      cases hg
      exact ⟨f', getElem?_set_self hp, hserve.trans h2, by rw [hunset]; decide,
        by rw [hw]; exact h4, h5⟩
    · exact ⟨g, by rw [getElem?_set_ne (Ne.symm hrp)]; exact hg, h2, h3, h4, h5⟩
  refine ⟨fun r g hg => ?_, fun r g hg hs w hw' => ?_, fun j w hw' => ?_, fun j w hw' => ?_⟩
  · rw [length_set]
    rcases getElem?_set_cases hg with ⟨-, rfl⟩ | ⟨-, hg⟩
    · exact ⟨hok, hserve ▸ (h.ok p f hf).2⟩
    · exact h.ok r g hg
  · rcases getElem?_set_cases hg with ⟨-, rfl⟩ | ⟨-, hg⟩
    · exact absurd hs hph
    · rcases getElem?_set_cases hw' with ⟨hj, rfl⟩ | ⟨-, hw'⟩
      · exact h.halted r g hg hs v (hj ▸ hv)
      · exact h.halted r g hg hs w hw'
  · rcases getElem?_set_cases hw' with ⟨rfl, rfl⟩ | ⟨-, hw'⟩
    · have hr := hreader _ v hv
      refine ⟨hr.stopped, hr.returned, fun r d src hwr => ?_⟩
      obtain ⟨g, hg, h2, h3, h4, h5, h6⟩ := hr.writing r d src hwr
      exact ⟨g, hg, h2, h3, h4, h5, fun q hq => h6 q (mem_of_mem_filter hq)⟩
    · exact hreader j w hw'
  rcases getElem?_set_cases hw' with ⟨rfl, rfl⟩ | ⟨hj, hw'⟩
  · have huniq : ∀ r, (f.client, r) ∈ v.m → r = p := by
      intro r hr
      have := inj_on_of_nodup_map ht.clients hr hmem rfl
      exact (Prod.mk.inj this).2
    refine ⟨ht.clients.sublist (filter_sublist.map _), fun c r => ?_, hidx, fun r => ?_⟩
    · dsimp only
      rw [mem_filter, ht.entries]
      by_cases hrp : r = p
      · subst hrp
        rw [getElem?_set_self hp, hf]
        constructor
        · rintro ⟨⟨g, hg, h1, h2, h3⟩, hne⟩
          cases hg
          rw [← h3] at hne
          simp at hne
        rintro ⟨g, hg, h1, h2, h3⟩
        cases hg
        rw [hgone] at h2
        cases h2
      rw [getElem?_set_ne (Ne.symm hrp)]
      constructor
      · rintro ⟨hg, -⟩
        exact hg
      intro hg
      refine ⟨hg, bne_iff_ne.mpr fun hc => hrp (huniq r ?_)⟩
      have := (ht.entries c r).mpr hg
      rw [show c = f.client from hc] at this
      exact this
    rw [hrest, ht.dense]
    constructor
    · rintro ⟨⟨c, hc⟩, hrp⟩
      refine ⟨c, mem_filter.mpr ⟨hc, bne_iff_ne.mpr fun he => hrp (huniq r ?_)⟩⟩
      rw [show c = f.client from he] at hc
      exact hc
    rintro ⟨c, hc⟩
    obtain ⟨hc, hne⟩ := mem_filter.mp hc
    refine ⟨⟨c, hc⟩, fun he => ?_⟩
    rw [he] at hc
    obtain ⟨g, hg, -, -, h3⟩ := (ht.entries c p).mp hc
    rw [hf] at hg
    cases hg
    rw [← h3] at hne
    simp at hne
  have ht' := h.table j w hw'
  refine ⟨ht'.clients, fun c r => ?_, fun k a ha => ?_, ht'.dense⟩
  · rw [ht'.entries]
    by_cases hrp : r = p
    · subst hrp
      rw [getElem?_set_self hp, hf]
      constructor
      · rintro ⟨g, hg, h1, -, -⟩
        cases hg
        exact absurd h1.symm hj
      rintro ⟨g, hg, h1, h2, -⟩
      cases hg
      rw [hgone] at h2
      cases h2
    · rw [getElem?_set_ne (Ne.symm hrp)]
  -- the index that moved is of a flow of the other table
  have hne : ∀ b ∈ v.all, a ≠ b := by
    rintro b hb rfl
    obtain ⟨c, hc⟩ := (ht'.dense a).mp (mem_of_getElem? ha)
    obtain ⟨c', hc'⟩ := (ht.dense a).mp hb
    obtain ⟨g, hg, h1, -, -⟩ := (ht'.entries c a).mp hc
    obtain ⟨g', hg', h1', -, -⟩ := (ht.entries c' a).mp hc'
    rw [hg] at hg'
    cases hg'
    exact hj (h1.symm.trans h1')
  have hsame : (swapRemove v.all idx p).2 a = idx a := by
    unfold swapRemove
    split
    · rfl
    rename_i b hb
    split
    · exact Function.update_of_ne (hne b (mem_of_getElem? hb)) _ _
    · rfl
  rw [hsame]
  exact ht'.indexed k a ha

/-- A new opening flow of a client without an entry. -/
lemma enter (hv : serves[i]? = some v) {src : Nat} {d : Dgram} (bare : Nat)
    (hnone : PortForward.find v src = none) (hd : d.n < next) (hret : v.stopped = false)
    (hidle : v.reader = .idle) :
    Good (made ++ [newEntry bare i src d]) (Function.update idx made.length v.all.length)
      (serves.set i { v with m := (src, made.length) :: v.m, all := v.all ++ [made.length] }) next := by
  have hi := (List.getElem?_eq_some_iff.mp hv).1
  have ht := h.table i v hv
  have hfresh : ∀ c r, (c, r) ∈ v.m → r < made.length := by
    intro c r hr
    obtain ⟨f, hf, -⟩ := (ht.entries c r).mp hr
    exact (List.getElem?_eq_some_iff.mp hf).1
  have hnew : made.length ∉ v.all := by
    intro hm
    obtain ⟨c, hc⟩ := (ht.dense _).mp hm
    exact absurd (hfresh c _ hc) (lt_irrefl _)
  have hgetf : ∀ (r : Nat) (g : Flow), (made ++ [newEntry bare i src d])[r]? = some g →
      (r = made.length ∧ g = newEntry bare i src d) ∨ (r < made.length ∧ made[r]? = some g) := by
    intro r g hg
    rw [getElem?_append] at hg
    split at hg
    · exact .inr ⟨by assumption, hg⟩
    rw [getElem?_singleton] at hg
    split at hg
    · exact .inl ⟨by omega, (Option.some.inj hg).symm⟩
    · cases hg
  have hkeep : ∀ (r : Nat) (g : Flow), made[r]? = some g →
      (made ++ [newEntry bare i src d])[r]? = some g := by
    intro r g hg
    rw [getElem?_append_left (List.getElem?_eq_some_iff.mp hg).1]
    exact hg
  have hself : (made ++ [newEntry bare i src d])[made.length]? = some (newEntry bare i src d) := by
    simp
  have hokn : (newEntry bare i src d).Ok next := by
    have hseq : (newEntry bare i src d).seq = [d] := by
      unfold newEntry seq
      by_cases hfit : 0 < d.len ∧ bare + d.len ≤ 438 <;> simp [hfit, Phase.batch]
    refine ⟨by simp [newEntry], rfl, rfl, ⟨Nat.zero_le _, Nat.zero_le _⟩, ?_, ?_, ?_⟩
    · rw [hseq]
      exact pairwise_singleton ..
    · rw [hseq]
      intro n hn
      rw [mem_singleton.mp hn]
      exact hd
    unfold newEntry
    by_cases hfit : 0 < d.len ∧ bare + d.len ≤ 438
    · exact .inr (if_pos hfit)
    · exact .inl (if_neg hfit)
  have hreader : ∀ (j : Nat) (w : Serve), serves[j]? = some w → (j = i → w.stopped = false) →
      ReaderOk (made ++ [newEntry bare i src d]) next j w := by
    intro j w hw hst
    have hr := h.reader j w hw
    refine ⟨hr.stopped, fun hret => ⟨(hr.returned hret).1, fun r g hg hs => ?_⟩,
      fun r d' src' hwr => ?_⟩
    · rcases hgetf r g hg with ⟨-, rfl⟩ | ⟨-, hg⟩
      · have := (hr.returned hret).1
        rw [hst hs.symm] at this
        cases this
      · exact (hr.returned hret).2 r g hg hs
    · obtain ⟨g, hg, h2⟩ := hr.writing r d' src' hwr
      exact ⟨g, hkeep r g hg, h2⟩
  refine ⟨fun r g hg => ?_, fun r g hg hs w hw => ?_, fun j w hw => ?_, fun j w hw => ?_⟩
  · rw [length_set]
    rcases hgetf r g hg with ⟨-, rfl⟩ | ⟨-, hg⟩
    · exact ⟨hokn, hi⟩
    · exact h.ok r g hg
  · rcases hgetf r g hg with ⟨-, rfl⟩ | ⟨-, hg⟩
    · cases hs
    · rcases getElem?_set_cases hw with ⟨hj, rfl⟩ | ⟨-, hw⟩
      · exact h.halted r g hg hs v (hj ▸ hv)
      · exact h.halted r g hg hs w hw
  · rcases getElem?_set_cases hw with ⟨rfl, rfl⟩ | ⟨hj, hw⟩
    · have hr := hreader j v hv fun _ => hret
      refine ⟨hr.stopped, hr.returned, fun r d' src' hwr => ?_⟩
      exact absurd (hidle.symm.trans hwr) (by simp)
    · exact hreader j w hw fun he => absurd he hj
  rcases getElem?_set_cases hw with ⟨rfl, rfl⟩ | ⟨hj, hw⟩
  · refine ⟨?_, fun c r => ?_, ht.indexed.push hnew, fun r => ?_⟩
    · dsimp only
      rw [map_cons, nodup_cons]
      refine ⟨fun hm => ?_, ht.clients⟩
      obtain ⟨e, he, hsrc⟩ := mem_map.mp hm
      unfold PortForward.find at hnone
      rw [Option.map_eq_none_iff, find?_eq_none] at hnone
      exact hnone e he (by simpa using hsrc)
    · dsimp only
      rw [mem_cons, ht.entries]
      constructor
      · rintro (he | ⟨f, hf, hrest⟩)
        · cases he
          exact ⟨_, hself, rfl, rfl, rfl⟩
        · exact ⟨f, hkeep r f hf, hrest⟩
      rintro ⟨f, hf, h1, h2, h3⟩
      rcases hgetf r f hf with ⟨rfl, rfl⟩ | ⟨-, hf⟩
      · exact .inl (by rw [← h3]; rfl)
      · exact .inr ⟨f, hf, h1, h2, h3⟩
    rw [mem_append, mem_singleton, ht.dense]
    constructor
    · rintro (⟨c, hc⟩ | rfl)
      · exact ⟨c, mem_cons_of_mem _ hc⟩
      · exact ⟨src, mem_cons_self ..⟩
    rintro ⟨c, hc⟩
    rcases mem_cons.mp hc with he | hc
    · cases he
      exact .inr rfl
    · exact .inl ⟨c, hc⟩
  have ht' := h.table j w hw
  refine ⟨ht'.clients, fun c r => ?_, fun k a ha => ?_, ht'.dense⟩
  · rw [ht'.entries]
    constructor
    · rintro ⟨f, hf, hrest⟩
      exact ⟨f, hkeep r f hf, hrest⟩
    rintro ⟨f, hf, h1, h2, h3⟩
    rcases hgetf r f hf with ⟨-, rfl⟩ | ⟨-, hf⟩
    · exact absurd h1.symm hj
    · exact ⟨f, hf, h1, h2, h3⟩
  have hlt : a ≠ made.length := by
    rintro rfl
    obtain ⟨c, hc⟩ := (ht'.dense _).mp (mem_of_getElem? ha)
    obtain ⟨f, hf, -⟩ := (ht'.entries c _).mp hc
    exact absurd (List.getElem?_eq_some_iff.mp hf).1 (lt_irrefl _)
  rw [Function.update_of_ne hlt]
  exact ht'.indexed k a ha

end

end Good

end Rendr.L4
