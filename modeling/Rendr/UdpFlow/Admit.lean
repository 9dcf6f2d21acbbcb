import Rendr.UdpFlow.Source

/-!
# Flows are admitted within their bounds

* `Counts` — the admitting counts count the flows that are still admitting, and stay in their
  bounds; the table maps each ID to a flow of that ID.
* `Kept` — the tombstone queue holds the last removals, and what it no longer holds is expired or
  has as many later removals as tombstones are remembered; an unexpired record has a map entry at
  least as late, and no flow of the table has its ID.
* `source_admission` — both along every run, whatever datagrams arrive.
-/

namespace Rendr.UdpFlow

open List Source Flow

/-! ### The admitting counts -/

/-- The flow is admitting, of the address and the class. -/
def Flow.counted (ip : Nat) (cls : Class) (f : Flow) : Bool :=
  f.admitting && (f.ip == ip && f.cls == cls)

/-- **The counts.** `left` are the flows that left the admitting count. -/
structure Counts (lim : Limits) (s : Source) (left : List Nat) : Prop where
  perIP : ∀ ip cls, s.perIP ip cls = s.made.countP (counted ip cls)
  admitting : s.admitting = s.made.countP admitting
  quota : ∀ ip cls, s.perIP ip cls ≤ lim.bound cls
  room : (s.flows.length : Int) ≤ lim.maxFlows
  once : ∀ n f, s.made[n]? = some f → left.count n = if f.admitting then 0 else 1
  past : ∀ n ∈ left, n < s.made.length
  table : ∀ e ∈ s.flows, ∃ f, s.made[e.2]? = some f ∧ f.id = e.1
  ids : (s.flows.map Prod.fst).Nodup

/-- The bounds of a normalized configuration. -/
structure Limits.Sound (lim : Limits) : Prop where
  flows : 0 ≤ lim.maxFlows
  bound : ∀ cls, 0 ≤ lim.bound cls
  tombs : 1 ≤ lim.tombstones

lemma Limits.normalized_sound (l : Limits) : l.normalized.Sound where
  flows := by
    unfold normalized maxFlowsCap
    dsimp only
    split <;> omega
  bound cls := by
    cases cls <;> (unfold Limits.bound normalized; dsimp only; split <;> omega)
  tombs := by
    unfold normalized
    dsimp only
    split <;> omega

variable {lim : Limits}

/-- The `int32` quota is at most the configured bound. -/
lemma Limits.quota_le (h : lim.Sound) (cls : Class) :
    lim.quota cls ≤ lim.bound cls := by
  have := h.bound cls
  unfold quota Int.bmod
  dsimp only
  split <;> omega

variable {id : UInt64}

namespace Counts

variable {lim : Limits} {s s' : Source} {left : List Nat}

section

variable (h : Counts lim s left)
include h

/-- The counts read the flows, the table and the counters only. -/
lemma of_same (hmade : s'.made = s.made) (hflows : s'.flows = s.flows) (hper : s'.perIP = s.perIP)
    (hadm : s'.admitting = s.admitting) : Counts lim s' left where
  perIP := by rw [hper, hmade]; exact h.perIP
  admitting := by rw [hadm, hmade]; exact h.admitting
  quota := by rw [hper]; exact h.quota
  room := by rw [hflows]; exact h.room
  once := by rw [hmade]; exact h.once
  past := by rw [hmade]; exact h.past
  table := by rw [hflows, hmade]; exact h.table
  ids := by rw [hflows]; exact h.ids

/-- A new flow below the quota, in a table with room. -/
lemma enter {ip : Nat} {cls : Class} (hs : lim.Sound) (hroom : ¬ lim.maxFlows ≤ s.flows.length)
    (hquota : ¬ lim.quota cls ≤ s.perIP ip cls) :
    Counts lim (s.enter id ip cls) left where
  perIP ip' cls' := by
    have := h.perIP ip' cls'
    simp only [Source.enter, Source.bump, countP_append, countP_singleton, counted,
      Bool.true_and, Bool.and_eq_true, beq_iff_eq]
    by_cases hk : ip' = ip ∧ cls' = cls
    · obtain ⟨rfl, rfl⟩ := hk
      simpa [counted] using this
    · have hk' : ¬(ip = ip' ∧ cls = cls') := fun h => hk ⟨h.1.symm, h.2.symm⟩
      rw [if_neg hk, if_neg hk']
      simpa [counted] using this
  admitting := by
    simp [Source.enter, h.admitting, countP_append]
  quota ip' cls' := by
    have hq := Limits.quota_le hs cls
    have := h.quota ip' cls'
    simp only [Source.enter, Source.bump]
    split
    next hk =>
      obtain ⟨rfl, rfl⟩ := hk
      omega
    · exact this
  room := by
    have := length_filter_le (fun e : UInt64 × Nat => e.1 != id) s.flows
    simp only [Source.enter, length_cons]
    omega
  once n f hf := by
    simp only [Source.enter] at hf
    rw [getElem?_append] at hf
    split at hf
    · exact h.once n f hf
    rename_i hn
    rw [getElem?_singleton] at hf
    split at hf
    · cases hf
      rw [count_eq_zero_of_not_mem fun hm => hn (h.past n hm)]
      rfl
    · cases hf
  past n hn := by
    have := h.past n hn
    simp only [Source.enter, length_append, length_singleton]
    omega
  table e he := by
    simp only [Source.enter, mem_cons, mem_filter] at he ⊢
    rcases he with rfl | ⟨he, -⟩
    · exact ⟨⟨id, ip, cls, true⟩, by simp, rfl⟩
    · obtain ⟨f, hf, hid⟩ := h.table e he
      exact ⟨f, by rw [getElem?_append_left (List.getElem?_eq_some_iff.mp hf).1]; exact hf, hid⟩
  ids := by
    simp only [Source.enter, map_cons]
    refine nodup_cons.mpr ⟨?_, h.ids.sublist (filter_sublist.map _)⟩
    simp

/-- A flow leaves the admitting count, if it has not yet. -/
lemma unadmitFlow (n : Nat) (r : Run) (hr : r.src.made = s.made) :
    Counts lim (s.unadmitFlow n) (r.leaves n ++ left) := by
  unfold Source.unadmitFlow Run.leaves
  rw [hr]
  cases hf : s.made[n]? with
  | none => exact h
  | some f =>
    dsimp only
    split
    next hadm =>
      obtain ⟨hn, hget⟩ := List.getElem?_eq_some_iff.mp hf
      have hcount : ∀ p : Flow → Bool, p { f with admitting := false } = false →
          (s.made.set n { f with admitting := false }).countP p =
            s.made.countP p - if p f then 1 else 0 := by
        intro p hp
        rw [countP_set hn, hget, hp]
        simp
      have hpos : ∀ p : Flow → Bool, p f = true → 0 < s.made.countP p := fun p hp =>
        countP_pos_iff.mpr ⟨f, mem_of_getElem? hf, hp⟩
      refine ⟨fun ip cls => ?_, ?_, fun ip cls => ?_, h.room, fun m g hg => ?_, fun m hm => ?_,
        fun e he => ?_, h.ids⟩
      · have := h.perIP ip cls
        dsimp only [bump]
        rw [hcount (counted ip cls) rfl]
        by_cases hk : ip = f.ip ∧ cls = f.cls
        · have hc : counted ip cls f = true := by
            simp [counted, hadm, hk.1, hk.2]
          have := hpos _ hc
          rw [if_pos hk, if_pos hc]
          omega
        have hc : counted ip cls f = false := by
          rw [Bool.eq_false_iff]
          intro hc
          simp only [counted, Bool.and_eq_true, beq_iff_eq] at hc
          exact hk ⟨hc.2.1.symm, hc.2.2.symm⟩
        rw [if_neg hk, hc]
        simpa using this
      · have := h.admitting
        have := hpos Flow.admitting hadm
        dsimp only
        rw [hcount Flow.admitting rfl, if_pos hadm]
        omega
      · have := h.quota ip cls
        dsimp only [bump]
        split <;> omega
      · dsimp only at hg
        rw [getElem?_set] at hg
        rw [count_append, count_singleton]
        split at hg
        next hnm =>
          subst hnm
          cases hg
          have := h.once n f hf
          rw [if_pos hadm] at this
          simp [this]
        next hnm =>
        have hb : (n == m) = false := beq_false_of_ne hnm
        rw [hb, h.once m g hg]
        simp
      · rw [length_set]
        rcases mem_append.mp hm with hm | hm
        · rw [mem_singleton.mp hm]
          exact hn
        · exact h.past m hm
      obtain ⟨g, hg, hid⟩ := h.table e he
      rw [getElem?_set]
      split
      next hne =>
        rw [← hne, hf] at hg
        cases hg
        exact ⟨{ f with admitting := false }, rfl, hid⟩
      · exact ⟨g, hg, hid⟩
    · exact h

lemma unlist (n : Nat) (now : Int) : Counts lim (s.unlist lim n now) left := by
  unfold Source.unlist
  cases hf : s.made[n]? with
  | none => exact h
  | some f =>
    dsimp only
    split
    · have := length_filter_le (fun e : UInt64 × Nat => e.1 != f.id) s.flows
      exact {
        perIP := h.perIP
        admitting := h.admitting
        quota := h.quota
        room := by have := h.room; dsimp only; omega
        once := h.once
        past := h.past
        table := fun e he => h.table e (mem_of_mem_filter he)
        ids := h.ids.sublist (filter_sublist.map _) }
    · exact h

lemma closeLast : Counts lim s.closeLast left := by
  unfold Source.closeLast
  split
  · exact h.of_same rfl rfl rfl rfl
  · exact h

lemma admitH1 (hs : lim.Sound) (F : Firsts) (id : UInt64) (rb : Octets.Bytes) (ip : Nat)
    (now : Int) : Counts lim (s.admitH1 lim F id rb ip now).1 left := by
  unfold Source.admitH1
  split
  · exact h.of_same rfl rfl rfl rfl
  rename_i cls cid _
  split
  · exact h.of_same rfl rfl rfl rfl
  · exact h.of_same rfl rfl rfl rfl
  · exact h.of_same rfl rfl rfl rfl
  rename_i hgate
  unfold gate at hgate
  split_ifs at hgate with h1 h2 h3
  rw [not_or] at h3
  have h' : Counts lim { s with tombs := s.tombs.drop id now } left :=
    h.of_same rfl rfl rfl rfl
  exact h'.enter hs h3.1 h3.2

end

/-- **One section keeps the counts.** -/
lemma step {r : Run} (h : Counts lim r.src r.left) (hs : lim.Sound) (F : Firsts) (ev : Ev) :
    Counts lim (r.step lim F ev).src (r.step lim F ev).left := by
  cases ev with
  | receive d ip =>
    rw [Run.step]
    split
    · exact h
    unfold Run.route
    split
    · exact h.of_same rfl rfl rfl rfl
    · split
      · exact h.of_same rfl rfl rfl rfl
      · split <;> exact h
  | admitHeld delay =>
    rw [Run.step]
    split
    · exact h
    · exact h.admitH1 hs F _ _ _ _
  | unadmitFlow n => exact h.unadmitFlow n r rfl
  | close n =>
    rw [Run.step]
    split <;> exact h
  | remove n delay =>
    rw [Run.step]
    split
    · have hmade : r.src.made = (r.src.unlist lim n (r.clock + delay)).made := by
        unfold Source.unlist
        split
        · rfl
        · split <;> rfl
      exact ((h.unlist n (r.clock + delay)).unadmitFlow n r hmade).closeLast
    · exact h
  | stop =>
    have h' : Counts lim { r.src with stopped := true } r.left := h.of_same rfl rfl rfl rfl
    exact h'.closeLast
  | abort => exact h.of_same rfl rfl rfl rfl

lemma new (hs : lim.Sound) : Counts lim new [] where
  perIP _ _ := rfl
  admitting := rfl
  quota _ cls := hs.bound cls
  room := hs.flows
  once _ _ hf := by cases hf
  past _ hn := by cases hn
  table _ he := by cases he
  ids := nodup_nil

end Counts

/-! ### The tombstones -/

/-- The tombstone of a removal. -/
def tombOf (ttl : Int) (g : UInt64 × Int) : Tomb := ⟨g.1, g.2 + ttl⟩

/-- **The tombstones** at the time `clock`, when `gone` are the IDs removed, newest first, and `live`
those of the table: the queue is the newest removals, and of the `N` newest the others are
expired. -/
structure Kept (ttl N clock : Int) (q : Tombs) (gone : List (UInt64 × Int)) (live : List UInt64) :
    Prop where
  recs : q.tq = ((gone.take q.tq.length).map (tombOf ttl)).reverse
  old : ∀ k g, q.tq.length ≤ k → (k : Int) < N → gone[k]? = some g → g.2 + ttl ≤ clock
  room : (q.tq.length : Int) ≤ N
  entry : ∀ t ∈ q.tq, clock < t.till → ∃ u, q.till t.id = some u ∧ t.till ≤ u
  apart : q.tq.Pairwise fun a b => clock < a.till → a.id ≠ b.id
  fresh : ∀ t ∈ q.tq, clock < t.till → t.id ∉ live

variable {tq : List Tomb} {t : Tomb}

/-- The oldest record is the oldest removal that is kept. -/
lemma recs_cons {ttl : Int} {gone : List (UInt64 × Int)}
    (h : t :: tq = ((gone.take (tq.length + 1)).map (tombOf ttl)).reverse) :
    tq = ((gone.take tq.length).map (tombOf ttl)).reverse ∧
      ∃ g, gone[tq.length]? = some g ∧ t = tombOf ttl g := by
  have hlen := congrArg List.length h
  simp only [length_cons, length_reverse, length_map, length_take] at hlen
  have hlt : tq.length < gone.length := by omega
  rw [take_add_one, getElem?_eq_getElem hlt, Option.toList_some, map_append,
    reverse_append] at h
  obtain ⟨ht, htq⟩ := List.cons.inj h
  exact ⟨htq, _, getElem?_eq_getElem hlt, ht⟩

namespace Kept

variable {ttl N clock : Int} {q : Tombs} {gone : List (UInt64 × Int)} {live : List UInt64}

lemma later (h : Kept ttl N clock q gone live) {now : Int} (hle : clock ≤ now) :
    Kept ttl N now q gone live where
  recs := h.recs
  old k g hk hN hg := le_trans (h.old k g hk hN hg) hle
  room := h.room
  entry t ht hlt := h.entry t ht (lt_of_le_of_lt hle hlt)
  apart := h.apart.imp fun hab hlt => hab (lt_of_le_of_lt hle hlt)
  fresh t ht hlt := h.fresh t ht (lt_of_le_of_lt hle hlt)

variable {m : UInt64 → Option Int}

/-- The map keeps the entries of the other unexpired records: a record of the same ID in front of
an unexpired one is expired, so that the entry is later than it. -/
lemma without_entry {t t' : Tomb} {u : Int} (hap : clock < t.till → t.id ≠ t'.id)
    (hlt : clock < t'.till) (hu : m t'.id = some u) (hle : t'.till ≤ u) :
    without m t t'.id = some u := by
  unfold without
  split
  next hm =>
    by_cases hid : t'.id = t.id
    · rw [hid, hm] at hu
      have := Option.some.inj hu
      exact absurd hid.symm (hap (by omega))
    · rw [Function.update_of_ne hid]
      exact hu
  · exact hu

/-- The oldest record goes: it is expired, or one fewer of the newest removals is asked for. -/
lemma forget_cons {M : Int} (h : Kept ttl N clock ⟨t :: tq, m⟩ gone live) (hM : M ≤ N)
    (hroom : (tq.length : Int) ≤ M) (hold : t.till ≤ clock ∨ M ≤ tq.length) :
    Kept ttl M clock ⟨tq, without m t⟩ gone live := by
  obtain ⟨hrecs, g, hg, ht⟩ := recs_cons h.recs
  obtain ⟨hhead, htail⟩ := pairwise_cons.mp h.apart
  refine ⟨hrecs, fun k g' hk hkM hg' => ?_, hroom, fun t' ht' hlt => ?_, htail,
    fun t' ht' => h.fresh t' (mem_cons_of_mem _ ht')⟩
  · dsimp only at hk
    rcases Nat.eq_or_lt_of_le hk with heq | hlt
    · rw [← heq, hg] at hg'
      cases hg'
      rcases hold with hold | hold
      · rw [ht] at hold
        exact hold
      · omega
    · exact h.old k g' hlt (by omega) hg'
  · obtain ⟨u, hu, hle⟩ := h.entry t' (mem_cons_of_mem _ ht') hlt
    exact ⟨u, without_entry (hhead t' ht') hlt hu hle, hle⟩

lemma expire (h : Kept ttl N clock ⟨tq, m⟩ gone live) :
    Kept ttl N clock (Tombs.expire clock tq m) gone live := by
  induction tq generalizing m with
  | nil => exact h
  | cons t tq ih =>
    rw [Tombs.expire]
    split
    · exact h
    rename_i hexp
    have hroom := h.room
    simp only [length_cons] at hroom
    exact ih (h.forget_cons le_rfl (by omega) (.inl (by omega)))

lemma makeRoom (h : Kept ttl lim.tombstones clock q gone live)
    (hpos : 1 ≤ lim.tombstones) :
    Kept ttl (lim.tombstones - 1) clock (q.makeRoom lim) gone live := by
  unfold Tombs.makeRoom
  have hroom := h.room
  split
  next hfull =>
    unfold Tombs.forget
    split
    next htq =>
      rw [htq, length_nil] at hfull
      omega
    rename_i t tq htq
    have hq : q = ⟨t :: tq, q.till⟩ := by rw [← htq]
    rw [htq, length_cons] at hroom hfull
    rw [hq] at h
    exact h.forget_cons (by omega) (by omega) (.inr (by omega))
  · exact { h with old := fun k g hk hN => h.old k g hk (by omega), room := by omega }

/-- The ID leaves the table and gets the newest tombstone. -/
lemma push (h : Kept ttl (N - 1) clock q gone live) (hid : id ∈ live) (live' : List UInt64)
    (hlive : ∀ i ∈ live', i ∈ live ∧ i ≠ id) :
    Kept ttl N clock (q.push ⟨id, clock + ttl⟩) ((id, clock) :: gone) live' where
  recs := by
    simp only [Tombs.push, length_append, length_singleton, take_succ_cons,
      map_cons, reverse_cons]
    rw [← h.recs]
    rfl
  old k g hk hN hg := by
    simp only [Tombs.push, length_append, length_singleton] at hk
    obtain ⟨k', rfl⟩ : ∃ k', k = k' + 1 := ⟨k - 1, by omega⟩
    rw [getElem?_cons_succ] at hg
    exact h.old k' g (by omega) (by omega) hg
  room := by
    have := h.room
    simp only [Tombs.push, length_append, length_singleton]
    omega
  entry t ht hlt := by
    simp only [Tombs.push] at ht ⊢
    rcases mem_append.mp ht with ht | ht
    · have hne : t.id ≠ id := fun he => h.fresh t ht hlt (he ▸ hid)
      rw [Function.update_of_ne hne]
      exact h.entry t ht hlt
    · rw [mem_singleton.mp ht, Function.update_self]
      exact ⟨_, rfl, le_rfl⟩
  apart := by
    refine pairwise_append.mpr ⟨h.apart, pairwise_singleton .., fun a ha b hb hlt => ?_⟩
    rw [mem_singleton.mp hb]
    exact fun he => h.fresh a ha hlt (he ▸ hid)
  fresh t ht hlt := by
    rcases mem_append.mp ht with ht | ht
    · exact fun hm => h.fresh t ht hlt (hlive _ hm).1
    · rw [mem_singleton.mp ht]
      exact fun hm => (hlive _ hm).2 rfl

lemma add (h : Kept lim.tombstoneTTL lim.tombstones clock q gone live)
    (hpos : 1 ≤ lim.tombstones) (hid : id ∈ live) (live' : List UInt64)
    (hlive : ∀ i ∈ live', i ∈ live ∧ i ≠ id) :
    Kept lim.tombstoneTTL lim.tombstones clock (q.add lim id clock) ((id, clock) :: gone) live' :=
  (h.expire.makeRoom hpos).push hid live' hlive

section

variable (h : Kept ttl N clock q gone live)
include h

/-- An ID without a tombstone has no unexpired record. -/
lemma expired (hno : q.holds id clock = false) (ht : t ∈ q.tq) (hid : t.id = id) :
    t.till ≤ clock := by
  by_contra hlt
  obtain ⟨u, hu, hle⟩ := h.entry t ht (by omega)
  rw [hid] at hu
  rw [Tombs.holds, hu] at hno
  exact of_decide_eq_false hno (by omega)

/-- **A removed ID is refused.** Of the `N` newest removals, one of an ID without a tombstone is
expired. -/
lemma refused {t : Int} {k : Nat} (hno : q.holds id clock = false) (hk : (k : Int) < N)
    (hg : gone[k]? = some (id, t)) : t + ttl ≤ clock := by
  by_cases hlen : q.tq.length ≤ k
  · exact h.old k _ hlen hk hg
  refine h.expired hno (t := tombOf ttl (id, t)) ?_ rfl
  rw [h.recs]
  refine mem_reverse.mpr (mem_map.mpr ⟨(id, t), ?_, rfl⟩)
  refine mem_of_getElem? (i := k) ?_
  rw [getElem?_take_of_lt (by omega)]
  exact hg

lemma drop (id : UInt64) : Kept ttl N clock (q.drop id clock) gone live := by
  unfold Tombs.drop
  split
  · exact h
  rename_i hno
  rw [Bool.not_eq_true] at hno
  refine { h with entry := fun t ht hlt => ?_ }
  have hne : t.id ≠ id := by
    intro he
    have := h.expired hno ht he
    omega
  dsimp only
  rw [Function.update_of_ne hne]
  exact h.entry t ht hlt

/-- A flow of an ID without a tombstone enters the table. -/
lemma enter (hno : q.holds id clock = false) (live' : List UInt64)
    (hlive : ∀ i ∈ live', i = id ∨ i ∈ live) : Kept ttl N clock (q.drop id clock) gone live' := by
  refine { h.drop id with fresh := fun t ht hlt hm => ?_ }
  have htq : t ∈ q.tq := by
    unfold Tombs.drop at ht
    split at ht <;> exact ht
  rcases hlive _ hm with he | hm
  · have := h.expired hno htq he
    omega
  · exact h.fresh t htq hlt hm

end

end Kept

/-- The IDs of the table. -/
def Source.live (s : Source) : List UInt64 := s.flows.map Prod.fst

/-- The tombstones of a run. -/
def Run.Buried (lim : Limits) (r : Run) : Prop :=
  Kept lim.tombstoneTTL lim.tombstones r.clock r.src.tombs r.gone r.src.live

namespace Run

variable {lim : Limits} {r : Run}

lemma find_live {s : Source} {n : Nat} (h : s.find id = some n) : id ∈ s.live := by
  obtain ⟨e, he, -⟩ := Option.map_eq_some_iff.mp h
  have hid := find?_some he
  exact mem_map.mpr ⟨e, mem_of_find?_eq_some he, beq_iff_eq.mp hid⟩

@[simp] lemma unadmit_tombs (s : Source) (n : Nat) : (s.unadmitFlow n).tombs = s.tombs := by
  unfold unadmitFlow
  split
  · rfl
  · split <;> rfl

@[simp] lemma unadmit_live (s : Source) (n : Nat) : (s.unadmitFlow n).live = s.live := by
  unfold unadmitFlow
  split
  · rfl
  · split <;> rfl

@[simp] lemma closeLast_tombs (s : Source) : s.closeLast.tombs = s.tombs := by
  unfold closeLast
  split <;> rfl

@[simp] lemma closeLast_live (s : Source) : s.closeLast.live = s.live := by
  unfold closeLast
  split <;> rfl

lemma Buried.admitHeld (h : r.Buried lim) (F : Firsts) (delay : Nat) :
    (r.step lim F (.admitHeld delay)).Buried lim := by
  rw [step]
  split
  · exact h
  rename_i id rb ip _
  have h' := Kept.later h (show r.clock ≤ r.clock + delay by omega)
  unfold Buried admitH1
  split
  · exact h'
  split
  · exact h'
  · exact h'
  · exact h'.drop id
  rename_i hgate
  unfold gate at hgate
  split_ifs at hgate with h1 h2 h3
  refine h'.enter (Bool.not_eq_true _ ▸ h2) _ fun i hi => ?_
  simp only [live, enter, map_cons, mem_cons] at hi
  exact hi.imp_right fun hi => (filter_sublist.map _).subset hi

lemma Buried.remove (h : r.Buried lim) (hs : lim.Sound) (F : Firsts) (n delay : Nat) :
    (r.step lim F (.remove n delay)).Buried lim := by
  rw [step]
  refine guard h fun _ => ?_
  have h' := Kept.later h (show r.clock ≤ r.clock + delay by omega)
  unfold Buried Source.remove frees
  simp only [closeLast_tombs, closeLast_live, unadmit_tombs, unadmit_live]
  unfold unlist
  split
  · exact h'
  rename_i f hf
  split
  next hfind =>
    refine h'.add hs.tombs (find_live hfind) _ fun i hi => ?_
    obtain ⟨e, he, rfl⟩ := mem_map.mp hi
    obtain ⟨hmem, hne⟩ := mem_filter.mp he
    exact ⟨mem_map_of_mem hmem, bne_iff_ne.mp hne⟩
  · exact h'

/-- **One section keeps the tombstones.** -/
lemma Buried.step (h : r.Buried lim) (hs : lim.Sound) (F : Firsts) (ev : Ev) :
    (r.step lim F ev).Buried lim := by
  cases ev with
  | receive d ip =>
    rw [Run.step]
    split
    · exact h
    unfold route
    split
    · exact h
    · split
      · exact h
      · split <;> exact h
  | admitHeld delay => exact h.admitHeld F delay
  | unadmitFlow n =>
    unfold Buried
    simp only [Run.step, unadmit_tombs, unadmit_live]
    exact h
  | close n =>
    rw [Run.step]
    split <;> exact h
  | remove n delay => exact h.remove hs F n delay
  | stop =>
    unfold Buried
    simp only [Run.step, closeLast_tombs, closeLast_live]
    exact h
  | abort => exact h

lemma buried_start (hs : lim.Sound) (t0 : Int) : (start t0).Buried lim where
  recs := rfl
  old k g _ _ hg := by cases hg
  room := by have := hs.tombs; simp [start, new]; omega
  entry _ ht := by cases ht
  apart := List.Pairwise.nil
  fresh _ ht := by cases ht

end Run

/-! ### Flows that left the admitting count -/

/-- What was made stays, and what is not admitting stays so. -/
def Source.Grows (s s' : Source) : Prop :=
  ∀ (n : Nat) (f : Flow), s.made[n]? = some f →
    ∃ f' : Flow, s'.made[n]? = some f' ∧ (f.admitting = false → f'.admitting = false)

namespace Source

variable {lim : Limits} {s s' : Source}

lemma Grows.of_eq (h : s'.made = s.made) : s.Grows s' := fun _ f hf => ⟨f, h ▸ hf, id⟩

lemma unadmit_off (s : Source) {n : Nat} {f : Flow} (hf : s.made[n]? = some f) :
    ∃ f', (s.unadmitFlow n).made[n]? = some f' ∧ f'.admitting = false := by
  unfold unadmitFlow
  rw [hf]
  dsimp only
  split
  · exact ⟨_, getElem?_set_self (List.getElem?_eq_some_iff.mp hf).1, rfl⟩
  next hadm => exact ⟨f, hf, Bool.not_eq_true _ ▸ hadm⟩

lemma grows_unadmitFlow (s : Source) (n : Nat) : s.Grows (s.unadmitFlow n) := by
  intro m f hf
  by_cases hmn : m = n
  · subst hmn
    obtain ⟨f', hf', hoff⟩ := s.unadmit_off hf
    exact ⟨f', hf', fun _ => hoff⟩
  refine ⟨f, ?_, id⟩
  unfold unadmitFlow
  split
  · exact hf
  split
  · dsimp only
    rw [getElem?_set_ne (Ne.symm hmn)]
    exact hf
  · exact hf

lemma unlist_made (s : Source) (n : Nat) (now : Int) : (s.unlist lim n now).made = s.made := by
  unfold unlist
  split
  · rfl
  · split <;> rfl

lemma closeLast_made (s : Source) : s.closeLast.made = s.made := by
  unfold closeLast
  split <;> rfl

lemma remove_made (s : Source) (n : Nat) (now : Int) :
    (s.remove lim n now).made = ((s.unlist lim n now).unadmitFlow n).made := closeLast_made _

lemma grows_admitH1 (s : Source) (F : Firsts) (id : UInt64) (rb : Octets.Bytes) (ip : Nat)
    (now : Int) : s.Grows (s.admitH1 lim F id rb ip now).1 := by
  unfold admitH1
  split
  · exact .of_eq rfl
  split
  · exact .of_eq rfl
  · exact .of_eq rfl
  · exact .of_eq rfl
  intro n f hf
  refine ⟨f, ?_, fun h => h⟩
  simp only [enter]
  rw [getElem?_append_left (List.getElem?_eq_some_iff.mp hf).1]
  exact hf

/-- The flows that a removal keeps. -/
lemma remove_keeps (s : Source) (n : Nat) (now : Int) (hids : (s.flows.map Prod.fst).Nodup)
    {e : UInt64 × Nat} (he : e ∈ s.flows) (hne : e.2 ≠ n) : e ∈ (s.remove lim n now).flows := by
  have hflows : (s.remove lim n now).flows = (s.unlist lim n now).flows := by
    unfold remove closeLast unadmitFlow
    repeat' split
    all_goals rfl
  rw [hflows]
  unfold unlist
  split
  · exact he
  rename_i f _
  split
  next hfind =>
    refine mem_filter.mpr ⟨he, bne_iff_ne.mpr fun hid => hne ?_⟩
    -- the entry of the flow's ID is the one found, and it is the flow's
    obtain ⟨e', he', hn⟩ := Option.map_eq_some_iff.mp hfind
    have hid' : e'.1 = f.id := by simpa using find?_some he'
    have := inj_on_of_nodup_map hids he (mem_of_find?_eq_some he') (hid.trans hid'.symm)
    rw [this]
    exact hn
  · exact he

end Source

/-- Closed flows were made, and removed ones are no longer admitting. -/
structure Run.Over (r : Run) : Prop where
  closed : ∀ n ∈ r.closed, n < r.src.made.length
  removed : ∀ n ∈ r.removed, ∃ f, r.src.made[n]? = some f ∧ f.admitting = false

namespace Run

variable {lim : Limits} {r : Run}

lemma Over.grows (h : r.Over) {r' : Run} (hg : r.src.Grows r'.src) (hc : r'.closed = r.closed)
    (hr : r'.removed = r.removed) : r'.Over where
  closed n hn := by
    rw [hc] at hn
    obtain ⟨f, hf, -⟩ := hg n _ (getElem?_eq_getElem (h.closed n hn))
    exact (List.getElem?_eq_some_iff.mp hf).1
  removed n hn := by
    rw [hr] at hn
    obtain ⟨f, hf, hoff⟩ := h.removed n hn
    obtain ⟨f', hf', h'⟩ := hg n f hf
    exact ⟨f', hf', h' hoff⟩

lemma Over.step (h : r.Over) (F : Firsts) (ev : Ev) : (r.step lim F ev).Over := by
  cases ev with
  | receive d ip =>
    rw [Run.step]
    split
    · exact h
    unfold route
    split
    · exact h.grows (.of_eq rfl) rfl rfl
    split
    · exact h.grows (.of_eq rfl) rfl rfl
    · split
      · exact h
      · exact h.grows (.of_eq rfl) rfl rfl
  | admitHeld delay =>
    rw [Run.step]
    split
    · exact h
    · exact h.grows (r.src.grows_admitH1 F _ _ _ _) rfl rfl
  | unadmitFlow n => exact h.grows (r.src.grows_unadmitFlow n) rfl rfl
  | close n =>
    rw [Run.step]
    split
    · exact h
    rename_i hn
    refine ⟨fun m hm => ?_, h.removed⟩
    rcases mem_cons.mp hm with rfl | hm
    · exact not_le.mp fun hle => hn (.inr hle)
    · exact h.closed m hm
  | remove n delay =>
    rw [Run.step]
    refine guard h fun hn => ?_
    have hg : r.src.Grows (r.src.remove lim n (r.clock + delay)) := by
      intro m f hf
      rw [remove_made]
      exact (r.src.unlist lim n (r.clock + delay)).grows_unadmitFlow n m f
        (by rw [unlist_made]; exact hf)
    have hover : Over { r with src := r.src.remove lim n (r.clock + delay) } :=
      h.grows hg rfl rfl
    refine ⟨hover.closed, fun m hm => ?_⟩
    rcases mem_cons.mp hm with rfl | hm
    · have hlt := h.closed m hn.1
      rw [remove_made]
      refine unadmit_off _ (f := r.src.made[m]) ?_
      rw [unlist_made]
      exact getElem?_eq_getElem hlt
    · exact hover.removed m hm
  | stop => exact h.grows (.of_eq (closeLast_made _)) rfl rfl
  | abort => exact h.grows (.of_eq rfl) rfl rfl

end Run

/-! ### Every run -/

/-- The addresses and classes of the admitting flows. -/
def Source.keys (s : Source) : List (Nat × Class) :=
  (s.made.filter Flow.admitting).map fun f => (f.ip, f.cls)

lemma count_keys [BEq (Nat × Class)] [LawfulBEq (Nat × Class)] (l : List Flow) (ip : Nat)
    (cls : Class) : ((l.filter admitting).map fun f => (f.ip, f.cls)).count (ip, cls) =
    l.countP (counted ip cls) := by
  rw [List.count, countP_map, countP_filter]
  refine countP_congr fun f _ => ?_
  simp only [Function.comp_apply, counted, Bool.and_eq_true, beq_iff_eq, Prod.mk.injEq]
  tauto

/-- **Source admission.** Along every run of a source, from any configured limits and at any time:
the count of an address and class is the number of its flows that are still admitting, within its
bound; the total is the sum of these counts; the table is within its bound; a flow leaves the count
once, at the latest with its removal, and a removal keeps every other flow of the table. An ID is
admitted again only when its removals among the last `Tombstones` ones are expired, and every
unexpired record of the tombstone queue has a map entry at least as late. -/
theorem source_admission (l : Limits) (F : Firsts) (t0 : Int) (evs : List Ev) :
    let lim := l.normalized
    let r := runFrom (Run.step lim F) (Run.start t0) evs
    (∀ ip cls, r.src.perIP ip cls = r.src.made.countP (Flow.counted ip cls) ∧
      r.src.perIP ip cls ≤ lim.bound cls) ∧
    r.src.admitting = ∑ k ∈ r.src.keys.toFinset, r.src.perIP k.1 k.2 ∧
    (r.src.flows.length : Int) ≤ lim.maxFlows ∧
    (∀ n f, r.src.made[n]? = some f → (r.left.count n = if f.admitting then 0 else 1) ∧
      (n ∈ r.removed → f.admitting = false)) ∧
    (∀ n delay, ∀ e ∈ r.src.flows, e.2 ≠ n →
      e ∈ (r.step lim F (.remove n delay)).src.flows) ∧
    (∀ delay id rb ip, r.held = some (id, rb, ip) →
      (r.step lim F (.admitHeld delay)).src.made ≠ r.src.made →
      ∀ (k : Nat) t, (k : Int) < lim.tombstones → r.gone[k]? = some (id, t) →
        t + lim.tombstoneTTL ≤ r.clock + delay) ∧
    ∀ t ∈ r.src.tombs.tq, r.clock < t.till →
      ∃ u, r.src.tombs.till t.id = some u ∧ t.till ≤ u := by
  intro lim r
  have hs : lim.Sound := l.normalized_sound
  have hcounts : Counts lim r.src r.left :=
    runFrom_inv (fun r : Run => Counts lim r.src r.left) (Counts.new hs) fun r ev _ h => h.step hs F ev
  have hburied : r.Buried lim :=
    runFrom_inv (Run.Buried lim) (Run.buried_start hs t0) fun r ev _ h => h.step hs F ev
  have hover : r.Over :=
    runFrom_inv Run.Over ⟨by rintro _ ⟨⟩, by rintro _ ⟨⟩⟩ fun r ev _ h => h.step F ev
  refine ⟨fun ip cls => ⟨hcounts.perIP ip cls, hcounts.quota ip cls⟩, ?_, hcounts.room,
    fun n f hf => ⟨hcounts.once n f hf, fun hn => ?_⟩, fun n delay e he hne => ?_,
    fun delay id rb ip hheld hmade k t hk hg => ?_, fun t ht hlt => hburied.entry t ht hlt⟩
  · rw [hcounts.admitting, countP_eq_length_filter]
    have hlen : r.src.keys.length = (r.src.made.filter Flow.admitting).length := length_map ..
    rw [← hlen, ← sum_toFinset_count_eq_length, Nat.cast_sum]
    refine Finset.sum_congr rfl fun k _ => ?_
    rw [hcounts.perIP]
    exact congrArg Nat.cast (@count_keys instBEqOfDecidableEq _ r.src.made k.1 k.2)
  · obtain ⟨f', hf', hoff⟩ := hover.removed n hn
    rw [hf] at hf'
    cases hf'
    exact hoff
  · rw [Run.step]
    split
    · exact r.src.remove_keeps n _ hcounts.ids he hne
    · exact he
  have hb := Kept.later hburied (show r.clock ≤ r.clock + delay by omega)
  refine hb.refused ?_ hk hg
  -- a tombstone would have kept the flows as they are
  by_contra hno
  rw [Bool.not_eq_false] at hno
  refine hmade ?_
  simp only [Run.step, hheld]
  unfold admitH1
  split
  · rfl
  unfold gate
  rw [hno]
  split
  · rfl
  · rfl
  · rfl
  next hg => split at hg <;> cases hg

end Rendr.UdpFlow
