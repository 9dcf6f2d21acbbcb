import Rendr.Carrier.PingRun
import Rendr.Lib.Dense

/-!
# PINGs over a FIFO stream, and the shared gauge

* `Link` — a stream carrier and an honest peer: the batches arrive in order, the peer answers the
  latest PING it read, and its PONGs arrive in order, before or after the write that carried the
  PING returned. `Ordered` says where every PING is and that its mark is the DATA in front of it.
* `Sys` — carriers that share a gauge.
* `ping_bookkeeping` — the records, the watermark, the samples and the gauge along every run.
-/

namespace Rendr.Carrier.Pings

open List St

/-! ### The stream -/

/-- A PING on its way, with its record's counter and mark. -/
structure Token where
  ser : Nat
  id : UInt32
  nonce : UInt64
  mark : Nat
  deriving DecidableEq, Repr

inductive Item
  | data (n : Nat)
  | ping (t : Token)
  deriving DecidableEq, Repr

/-- The DATA octets of some items. -/
def bytes : List Item → Nat
  | [] => 0
  | .data n :: l => n + bytes l
  | .ping _ :: l => bytes l

def pings : List Item → List Token
  | [] => []
  | .data _ :: l => pings l
  | .ping t :: l => t :: pings l

/-- Behind `a` octets, every PING's mark is what is in front of it. -/
def Placed : Nat → List Item → Prop
  | _, [] => True
  | a, .data n :: l => Placed (a + n) l
  | a, .ping t :: l => t.mark = a ∧ Placed a l

lemma bytes_append (l l' : List Item) : bytes (l ++ l') = bytes l + bytes l' := by
  induction l with
  | nil => simp [bytes]
  | cons x l ih =>
    cases x with
    | data n => simp only [cons_append, bytes, ih]; omega
    | ping t => simp [bytes, ih]

lemma pings_append (l l' : List Item) : pings (l ++ l') = pings l ++ pings l' := by
  induction l with
  | nil => rfl
  | cons x l ih =>
    cases x with
    | data n => exact ih
    | ping t => exact congrArg (t :: ·) ih

lemma placed_append (a : Nat) (l l' : List Item) :
    Placed a (l ++ l') ↔ Placed a l ∧ Placed (a + bytes l) l' := by
  induction l generalizing a with
  | nil => simp [Placed, bytes]
  | cons x l ih =>
    cases x with
    | data n => simp only [cons_append, Placed, bytes, ih, Nat.add_assoc]
    | ping t => simp only [cons_append, Placed, bytes, ih, and_assoc]

/-- A stream carrier, its batch and whether it is written, the stream, what the peer has read, the
PING it owes an answer, and the PONGs on their way. -/
structure Link where
  st : St
  batch : List Item
  written : Bool
  wire : List Item
  read : Nat
  due : Option Token
  pongs : List Token

open Link

inductive LinkEv
  | encode (now : Int) (atEnd backlogged : Bool) (rev : Int)
  | fill (n : Nat)
  | write
  | commit (at' : Int) (capBlocked : Bool) (rev : Int)
  /-- The peer reads an item, and answers the latest PING. -/
  | read
  | answer
  | recv (now rev : Int) (capBlocked : Bool)
  /-- Sections that concern no PING. -/
  | start (gauge : Bool)
  | peerPing (busy : Bool) (rev : Int)
  | request
  | kill
  deriving Repr

/-- The token of the newest record. -/
def newest (s : St) : List Item :=
  match s.recs.getLast? with
  | none => []
  | some r => [.ping ⟨r.ser, r.id, r.nonce, r.mark⟩]

def Link.step (E : Env) (k : Link) : LinkEv → Link
  | .encode now atEnd backlogged rev =>
    if !k.written && k.st.mayEncode E atEnd then
      { k with
        st := k.st.encodePing E now atEnd backlogged rev
        batch := k.batch ++ newest (k.st.encodePing E now atEnd backlogged rev) }
    else k
  | .fill n =>
    if k.written then k
    else { k with st := k.st.step E (.fill n), batch := k.batch ++ [.data n] }
  | .write => if k.written then k else { k with written := true, wire := k.wire ++ k.batch }
  | .commit at' capBlocked rev =>
    if k.written then { k with st := k.st.commit E at' capBlocked rev, batch := [], written := false }
    else k
  | .read =>
    match k.wire with
    | [] => k
    | .data n :: l => { k with wire := l, read := k.read + n }
    | .ping t :: l => { k with wire := l, due := some t }
  | .answer =>
    match k.due with
    | none => k
    | some t => { k with due := none, pongs := k.pongs ++ [t] }
  | .recv now rev capBlocked =>
    match k.pongs with
    | [] => k
    | t :: l => { k with st := k.st.step E (.pong t.id t.nonce now rev capBlocked), pongs := l }
  | .start g => { k with st := k.st.step E (.start g) }
  | .peerPing busy rev => { k with st := k.st.step E (.peerPing busy rev) }
  | .request => { k with st := k.st.step E .request }
  | .kill => { k with st := k.st.step E .kill }

/-- A new carrier and its peer. -/
def Link.new (first : UInt32) : Link where
  st := St.new first
  batch := []
  written := false
  wire := []
  read := 0
  due := none
  pongs := []

/-- The PINGs on their way, oldest first. -/
def Link.tokens (k : Link) : List Token :=
  k.pongs ++ (k.due.toList ++ (pings k.wire ++ if k.written then [] else pings k.batch))

/-- The record is the token's. -/
def Token.Of (t : Token) (r : PingRecord) : Prop :=
  r.ser = t.ser ∧ r.id = t.id ∧ r.nonce = t.nonce ∧ r.mark = t.mark

/-- **The stream in order.** -/
structure Ordered (E : Env) (k : Link) : Prop where
  core : Core E k.st
  dense : k.st.Dense
  held : bytes k.batch = k.st.data
  sent : k.read + bytes k.wire = k.st.submitted + if k.written then k.st.data else 0
  increasing : k.tokens.Pairwise fun a b => a.ser < b.ser
  recorded : ∀ t ∈ k.tokens, ∃ r ∈ k.st.recs, t.Of r
  placed : Placed k.read k.wire
  batched : k.written = false → Placed k.st.submitted k.batch
  seen : ∀ t ∈ k.pongs ++ k.due.toList, t.mark ≤ k.read
  raced : ∀ r ∈ k.st.recs, r.early = true → r.mark ≤ k.read
  mark : k.st.pongMark ≤ k.read

namespace Ordered

variable {E : Env} {k : Link}

section

variable (h : Ordered E k)
include h

/-- Sections that leave the records, the DATA and the watermark. -/
lemma of_same {s' : St} (hcore : Core E s') (h1 : s'.recs = k.st.recs) (h2 : s'.cnt = k.st.cnt)
    (h3 : s'.submitted = k.st.submitted) (h4 : s'.data = k.st.data)
    (h5 : s'.pongMark = k.st.pongMark) : Ordered E { k with st := s' } where
  core := hcore
  dense := h.dense.of_same h1 h2
  held := by rw [h4]; exact h.held
  sent := by rw [h3, h4]; exact h.sent
  increasing := h.increasing
  recorded := by rw [h1]; exact h.recorded
  placed := h.placed
  batched := by rw [h3]; exact h.batched
  seen := h.seen
  raced := by rw [h1]; exact h.raced
  mark := by rw [h5]; exact h.mark

lemma encode (hdg : E.dg = false) (hw : k.written = false) {atEnd : Bool}
    (hmay : k.st.mayEncode E atEnd = true) (now : Int) (backlogged : Bool) (rev : Int) :
    Ordered E { k with
      st := k.st.encodePing E now atEnd backlogged rev
      batch := k.batch ++ newest (k.st.encodePing E now atEnd backlogged rev) } := by
  have hcore := h.core.encodePing hmay now backlogged rev
  have hdense := h.dense.encodePing hdg now atEnd backlogged rev
  -- the new record: its mark is what the batch has in front of it
  have hnew : ∃ r, (k.st.encodePing E now atEnd backlogged rev).recs = k.st.recs ++ [r] ∧
      r.early = false ∧ r.mark = k.st.submitted + bytes k.batch ∧ r.ser = k.st.cnt ∧
      (k.st.encodePing E now atEnd backlogged rev).submitted = k.st.submitted ∧
      (k.st.encodePing E now atEnd backlogged rev).data = k.st.data ∧
      (k.st.encodePing E now atEnd backlogged rev).pongMark = k.st.pongMark := by
    unfold St.encodePing
    obtain ⟨a, b, c, d, heq⟩ := gaugeUpdate_eq E _ rev
    rw [heq]
    refine ⟨_, rfl, rfl, ?_, ?_, rfl, rfl, rfl⟩
    · dsimp only
      rw [h.held]
      split
      · rfl
      rename_i hend
      simp only [mayEncode, Bool.and_eq_true] at hmay
      have := hmay.2
      rw [if_neg hend, decide_eq_true_eq] at this
      rw [this, Nat.add_zero]
    have hsk : k.st.skips E = false := by simp [skips, hdg]
    rw [hsk]
    rfl
  obtain ⟨r, hrecs, hearly, hmark, hser, hsub, hdata, hpm⟩ := hnew
  have hnewest : newest (k.st.encodePing E now atEnd backlogged rev) =
      [.ping ⟨r.ser, r.id, r.nonce, r.mark⟩] := by
    unfold newest
    rw [hrecs, getLast?_concat]
  have htok : tokens { k with
      st := k.st.encodePing E now atEnd backlogged rev
      batch := k.batch ++ newest (k.st.encodePing E now atEnd backlogged rev) } =
      k.tokens ++ [⟨r.ser, r.id, r.nonce, r.mark⟩] := by
    unfold tokens
    rw [hnewest, hw, pings_append]
    simp only [Bool.false_eq_true, if_false, append_assoc]
    rfl
  refine ⟨hcore, hdense, ?_, ?_, ?_, ?_, h.placed, fun _ => ?_, h.seen, ?_, ?_⟩
  · dsimp only
    rw [bytes_append, hnewest, hdata, h.held]
    rfl
  · dsimp only
    rw [hsub, hdata]
    exact h.sent
  · rw [htok]
    refine pairwise_append.mpr ⟨h.increasing, pairwise_singleton .., fun a ha b hb => ?_⟩
    rw [mem_singleton.mp hb]
    obtain ⟨r0, hr0, hof⟩ := h.recorded a ha
    have := (h.core.ids r0 hr0).2.2
    rw [← hof.1, hser]
    exact this
  · rw [htok]
    intro t ht
    rw [hrecs]
    rcases mem_append.mp ht with ht | ht
    · obtain ⟨r0, hr0, hof⟩ := h.recorded t ht
      exact ⟨r0, mem_append_left _ hr0, hof⟩
    · rw [mem_singleton.mp ht]
      exact ⟨r, mem_append_right _ (mem_singleton_self r), rfl, rfl, rfl, rfl⟩
  · dsimp only
    rw [hsub, hnewest, placed_append]
    exact ⟨h.batched hw, hmark, trivial⟩
  · dsimp only
    rw [hrecs]
    intro r' hr' he
    rcases mem_append.mp hr' with hr' | hr'
    · exact h.raced r' hr' he
    · rw [mem_singleton.mp hr', hearly] at he
      cases he
  · dsimp only
    rw [hpm]
    exact h.mark

lemma fill (hw : k.written = false) (n : Nat) :
    Ordered E { k with st := k.st.step E (.fill n), batch := k.batch ++ [.data n] } := by
  have htok : tokens { k with st := k.st.step E (.fill n), batch := k.batch ++ [.data n] } =
      k.tokens := by
    unfold tokens
    rw [pings_append]
    simp [pings]
  refine ⟨h.core.step (.fill n), h.dense.of_same rfl rfl, ?_, ?_, ?_, ?_, h.placed, fun _ => ?_, h.seen,
    h.raced, h.mark⟩
  · dsimp only [St.step]
    rw [bytes_append, h.held]
    rfl
  · have := h.sent
    rw [hw] at this ⊢
    exact this
  · rw [htok]
    exact h.increasing
  · rw [htok]
    exact h.recorded
  · dsimp only [St.step]
    rw [placed_append]
    exact ⟨h.batched hw, trivial⟩

lemma write (hw : k.written = false) :
    Ordered E { k with written := true, wire := k.wire ++ k.batch } := by
  have hsent := h.sent
  rw [hw] at hsent
  simp only [Bool.false_eq_true, if_false, Nat.add_zero] at hsent
  have htok : tokens { k with written := true, wire := k.wire ++ k.batch } = k.tokens := by
    unfold tokens
    rw [pings_append, hw]
    simp
  refine ⟨h.core, h.dense, h.held, ?_, ?_, ?_, ?_, ?_, h.seen, h.raced, h.mark⟩
  · dsimp only
    rw [bytes_append, h.held, if_pos rfl]
    omega
  · rw [htok]
    exact h.increasing
  · rw [htok]
    exact h.recorded
  · dsimp only
    rw [placed_append, hsent]
    exact ⟨h.placed, h.batched hw⟩
  · rintro ⟨⟩

lemma commit (hw : k.written = true) (at' : Int) (capBlocked : Bool) (rev : Int) :
    Ordered E { k with st := k.st.commit E at' capBlocked rev, batch := [], written := false } := by
  have hcore := h.core.commit at' capBlocked rev
  have hdense := h.dense.commit E at' capBlocked rev
  -- a commit keeps what the records are about, and moves the watermark to an early mark at most
  have hshape : (k.st.commit E at' capBlocked rev).recs.map key = k.st.recs.map key ∧
      (k.st.commit E at' capBlocked rev).submitted = k.st.submitted + k.st.data ∧
      (k.st.commit E at' capBlocked rev).data = 0 ∧
      (k.st.commit E at' capBlocked rev).pongMark ≤ k.read := by
    have hset : ((k.st.submit.settle at' k.st.ping).recs.map key = k.st.recs.map key ∧
        (k.st.submit.settle at' k.st.ping).submitted = k.st.submitted + k.st.data ∧
        (k.st.submit.settle at' k.st.ping).data = 0) ∧
        (k.st.submit.settle at' k.st.ping).pongMark ≤ k.read := by
      cases k.st.ping with
      | none => exact ⟨⟨rfl, rfl, rfl⟩, h.mark⟩
      | some p =>
        refine ⟨⟨commitAt_keys .., rfl, rfl⟩, ?_⟩
        rcases commitPing_pongMark k.st.submit p at' with heq | ⟨r, hr, he, -, heq⟩
        · exact heq.trans_le h.mark
        · exact heq.trans_le (h.raced r hr he)
    unfold St.commit
    obtain ⟨a, b, c, d, heq⟩ := gaugeUpdate_eq E ((k.st.submit.settle at' k.st.ping).wantPing
      (decide (0 < k.st.data) && capBlocked && !k.st.ping.any RoundPing.atEnd)) rev
    rw [heq]
    unfold St.wantPing
    split <;> exact ⟨hset.1.1, hset.1.2.1, hset.1.2.2, hset.2⟩
  obtain ⟨hkeys, hsub, hdata, hpm⟩ := hshape
  have hback : ∀ r ∈ k.st.recs, ∃ r' ∈ (k.st.commit E at' capBlocked rev).recs, key r' = key r := by
    intro r hr
    have := hkeys ▸ mem_map_of_mem (f := key) hr
    exact mem_map.mp this
  have hfwd : ∀ r' ∈ (k.st.commit E at' capBlocked rev).recs, ∃ r ∈ k.st.recs, key r = key r' := by
    intro r hr
    have := hkeys ▸ mem_map_of_mem (f := key) hr
    exact mem_map.mp this
  have htok : tokens
      { k with st := k.st.commit E at' capBlocked rev, batch := [], written := false } =
      k.tokens := by
    unfold tokens
    rw [hw]
    rfl
  have hsent := h.sent
  rw [hw, if_pos rfl] at hsent
  refine ⟨hcore, hdense, by rw [hdata]; rfl, ?_, ?_, ?_, h.placed, fun _ => trivial, h.seen, ?_, hpm⟩
  · dsimp only
    rw [hsub]
    simpa using hsent
  · rw [htok]
    exact h.increasing
  · rw [htok]
    intro t ht
    obtain ⟨r, hr, hof⟩ := h.recorded t ht
    obtain ⟨r', hr', hk⟩ := hback r hr
    obtain ⟨e1, e2, e3, -, e5⟩ := key_inj hk
    exact ⟨r', hr', e5.trans hof.1, e1.trans hof.2.1, e2.trans hof.2.2.1, e3.trans hof.2.2.2⟩
  intro r' hr' he
  obtain ⟨r, hr, hk⟩ := hfwd r' hr'
  obtain ⟨-, -, e3, e4, -⟩ := key_inj hk
  rw [← e3]
  exact h.raced r hr (e4.trans he)

/-- The record of a PING on its way is the first one of its id. -/
lemma found {t : Token} (ht : t ∈ k.tokens) :
    ∃ r pre rest, t.Of r ∧ k.st.recs = pre ++ r :: rest ∧
      k.st.recs.dropWhile (fun r => r.id != t.id) = r :: rest := by
  obtain ⟨r, hr, hof⟩ := h.recorded t ht
  obtain ⟨pre, rest, heq⟩ := append_of_mem hr
  refine ⟨r, pre, rest, hof, heq, ?_⟩
  rw [heq, dropWhile_append_of_pos]
  · rw [dropWhile_cons_of_neg]
    simp [hof.2.1]
  intro a ha
  -- the ids of at most 32 consecutive records differ
  rw [bne_iff_ne]
  intro hid
  obtain ⟨i, hi⟩ := mem_iff_getElem?.mp ha
  have hilt := (List.getElem?_eq_some_iff.mp hi).1
  have ha' : k.st.recs[i]? = some a := by
    rw [heq, getElem?_append_left hilt]
    exact hi
  have hr' : k.st.recs[pre.length]? = some r := by
    rw [heq, getElem?_append_right le_rfl]
    simp
  have h1 := h.dense i a ha'
  have h2 := h.dense _ r hr'
  have hlen := h.core.len
  have hlt := (List.getElem?_eq_some_iff.mp hr').1
  have hmod : a.ser % 4294967296 = r.ser % 4294967296 := by
    have := (h.core.ids a (mem_of_getElem? ha')).1.symm.trans
      (hid.trans (hof.2.1.symm.trans (h.core.ids r hr).1))
    simpa using congrArg UInt32.toNat this
  unfold pingRingSize at hlen
  omega

lemma recv {t : Token} {l : List Token} (hp : k.pongs = t :: l) (now rev : Int)
    (capBlocked : Bool) : Ordered E { k with
      st := k.st.step E (.pong t.id t.nonce now rev capBlocked), pongs := l } := by
  have htoks : k.tokens = t :: tokens { k with pongs := l } := by
    unfold tokens
    rw [hp]
    rfl
  obtain ⟨r, pre, rest, hof, hrecs, hdrop⟩ := h.found (htoks ▸ mem_cons_self ..)
  have hinc := h.increasing
  rw [htoks] at hinc
  obtain ⟨hlater, hinc'⟩ := pairwise_cons.mp hinc
  have hread : r.mark ≤ k.read := by
    rw [hof.2.2.2]
    exact h.seen t (by rw [hp]; exact mem_cons_self ..)
  -- the later PINGs' records are behind the one that is answered
  have hrest : ∀ t' ∈ tokens { k with pongs := l }, ∃ r' ∈ rest, t'.Of r' := by
    intro t' ht'
    obtain ⟨r', hr', hof'⟩ := h.recorded t' (htoks ▸ mem_cons_of_mem _ ht')
    have hlt : r.ser < r'.ser := by
      rw [hof.1, hof'.1]
      exact hlater t' ht'
    have horder := h.core.order
    rw [hrecs] at hr' horder
    obtain ⟨-, htail, hcross⟩ := pairwise_append.mp horder
    rcases mem_append.mp hr' with hr' | hr'
    · have := hcross r' hr' r (mem_cons_self ..)
      omega
    · rcases mem_cons.mp hr' with rfl | hr'
      · omega
      · exact ⟨r', hr', hof'⟩
  have hsubset : ∀ r' ∈ rest, r' ∈ k.st.recs := by
    intro r' hr'
    rw [hrecs]
    exact mem_append_right _ (mem_cons_of_mem _ hr')
  have hseen : ∀ t' ∈ l ++ k.due.toList, t'.mark ≤ k.read := by
    intro t' ht'
    refine h.seen t' ?_
    rw [hp]
    exact mem_cons_of_mem _ ht'
  have hcore := h.core.step (.pong t.id t.nonce now rev capBlocked)
  rw [St.step] at hcore ⊢
  rcases onPong_cases E k.st t.id t.nonce now rev capBlocked with
    heq | ⟨r1, rest1, hdrop1, -, hcase⟩
  · rw [heq] at hcore ⊢
    refine ⟨hcore, h.dense, h.held, h.sent, hinc', fun t' ht' => ?_, h.placed, h.batched, hseen,
      h.raced, h.mark⟩
    obtain ⟨r', hr', hof'⟩ := hrest t' ht'
    exact ⟨r', hsubset r' hr', hof'⟩
  rw [hdrop] at hdrop1
  obtain ⟨rfl, rfl⟩ := List.cons.inj hdrop1
  have hsuf := (suffix_of_drop hdrop).1
  rcases hcase with ⟨-, heq⟩ | ⟨-, rtt, heq⟩
  · rw [heq] at hcore ⊢
    have hdense := h.dense.raced hsuf E rev
    have hshape : (k.st.early E r rest rev).submitted = k.st.submitted ∧
        (k.st.early E r rest rev).data = k.st.data ∧
        (k.st.early E r rest rev).pongMark ≤ k.read := by
      unfold St.early
      dsimp only
      split
      · obtain ⟨a, b, c, d, heq⟩ :=
          gaugeUpdate_eq E { k.st with pongMark := min r.mark k.st.submitted } rev
        rw [heq]
        exact ⟨rfl, rfl, le_trans (min_le_left ..) hread⟩
      · exact ⟨rfl, rfl, h.mark⟩
    refine ⟨hcore, hdense, by rw [hshape.2.1]; exact h.held, ?_, hinc', fun t' ht' => ?_, h.placed, ?_,
      hseen, fun r' hr' he => ?_, hshape.2.2⟩
    · dsimp only
      rw [hshape.1, hshape.2.1]
      exact h.sent
    · obtain ⟨r', hr', hof'⟩ := hrest t' ht'
      exact ⟨r', mem_cons_of_mem _ hr', hof'⟩
    · rw [hshape.1]
      exact h.batched
    · rcases mem_cons.mp hr' with rfl | hr'
      · exact hread
      · exact h.raced r' (hsubset r' hr') he
  rw [heq] at hcore ⊢
  have hdense := h.dense.answered hsuf E rtt rev
  have hshape : (k.st.answered E r rest rtt rev).recs = rest ∧
      (k.st.answered E r rest rtt rev).submitted = k.st.submitted ∧
      (k.st.answered E r rest rtt rev).data = k.st.data ∧
      (k.st.answered E r rest rtt rev).pongMark ≤ k.read := by
    unfold St.answered
    obtain ⟨a, b, c, d, heq⟩ := gaugeUpdate_eq E { k.st.sample rtt with
      recs := rest
      pongMark := if k.st.pongMark < r.mark then r.mark else k.st.pongMark
      samples := r.ser :: k.st.samples
      ponged := (r.id, r.nonce) :: k.st.ponged } rev
    rw [heq]
    refine ⟨rfl, rfl, rfl, ?_⟩
    dsimp only [St.sample]
    split
    · exact hread
    · exact h.mark
  refine ⟨hcore, hdense, by rw [hshape.2.2.1]; exact h.held, ?_, hinc', fun t' ht' => ?_,
    h.placed, ?_, hseen, fun r' hr' he => ?_, hshape.2.2.2⟩
  · dsimp only
    rw [hshape.2.1, hshape.2.2.1]
    exact h.sent
  · rw [hshape.1]
    exact hrest t' ht'
  · rw [hshape.2.1]
    exact h.batched
  · rw [hshape.1] at hr'
    exact h.raced r' (hsubset r' hr') he

lemma peerReads : Ordered E (k.step E .read) := by
  rw [Link.step]
  split
  · exact h
  next n l hwire =>
    have hsent := h.sent
    have hplaced := h.placed
    rw [hwire] at hsent hplaced
    have htok : Link.tokens { k with wire := l, read := k.read + n } = k.tokens := by
      unfold Link.tokens
      rw [hwire]
      rfl
    refine ⟨h.core, h.dense, h.held, ?_, ?_, ?_, hplaced, h.batched, fun t ht => ?_, fun r hr he => ?_,
      le_trans h.mark (Nat.le_add_right ..)⟩
    · simp only [bytes] at hsent
      dsimp only
      omega
    · rw [htok]
      exact h.increasing
    · rw [htok]
      exact h.recorded
    · exact le_trans (h.seen t ht) (Nat.le_add_right ..)
    · exact le_trans (h.raced r hr he) (Nat.le_add_right ..)
  rename_i t l hwire
  have hsent := h.sent
  have hplaced := h.placed
  rw [hwire] at hsent hplaced
  -- the answer to an older PING is dropped for the newer one
  have htok : (Link.tokens { k with wire := l, due := some t }).Sublist k.tokens := by
    unfold Link.tokens
    rw [hwire]
    exact ((sublist_append_right k.due.toList _).append_left k.pongs)
  refine ⟨h.core, h.dense, h.held, hsent, h.increasing.sublist htok,
    fun t' ht' => h.recorded t' (htok.subset ht'), hplaced.2, h.batched, fun t' ht' => ?_, h.raced,
    h.mark⟩
  rcases mem_append.mp ht' with ht' | ht'
  · exact h.seen t' (mem_append_left _ ht')
  · rw [mem_singleton.mp ht', hplaced.1]

lemma peerAnswers : Ordered E (k.step E .answer) := by
  rw [Link.step]
  split
  · exact h
  rename_i t hdue
  have htok : Link.tokens { k with due := none, pongs := k.pongs ++ [t] } = k.tokens := by
    unfold Link.tokens
    rw [hdue, append_assoc]
    rfl
  refine ⟨h.core, h.dense, h.held, h.sent, by rw [htok]; exact h.increasing,
    by rw [htok]; exact h.recorded, h.placed, h.batched, fun t' ht' => ?_, h.raced, h.mark⟩
  refine h.seen t' ?_
  rw [hdue]
  simpa using ht'

/-- **One step of the stream.** -/
lemma step (hdg : E.dg = false) (ev : LinkEv) : Ordered E (k.step E ev) := by
  cases ev with
  | encode now atEnd backlogged rev =>
    rw [Link.step]
    refine guard h fun hc => ?_
    rw [Bool.and_eq_true, Bool.not_eq_true'] at hc
    exact h.encode hdg hc.1 hc.2 now backlogged rev
  | fill n =>
    rw [Link.step]
    split
    · exact h
    next hw => exact h.fill (Bool.not_eq_true _ ▸ hw) n
  | write =>
    rw [Link.step]
    split
    · exact h
    next hw => exact h.write (Bool.not_eq_true _ ▸ hw)
  | commit at' capBlocked rev =>
    rw [Link.step]
    exact guard h fun hw => h.commit hw at' capBlocked rev
  | read => exact h.peerReads
  | answer => exact h.peerAnswers
  | recv now rev capBlocked =>
    rw [Link.step]
    split
    · exact h
    next t l hp => exact h.recv hp now rev capBlocked
  | start g =>
    refine h.of_same (h.core.step (.start g)) ?_ ?_ ?_ ?_ ?_ <;>
      (rw [St.step]; split <;> rfl)
  | peerPing busy rev =>
    refine h.of_same (h.core.step (.peerPing busy rev)) ?_ ?_ ?_ ?_ ?_ <;>
      (rw [St.step, onPing]
       obtain ⟨a, b, c, d, heq⟩ := gaugeUpdate_eq E { k.st with peerBusy := busy } rev
       split
       · rw [heq]
       · rfl)
  | request => exact h.of_same (h.core.step .request) rfl rfl rfl rfl rfl
  | kill =>
    obtain ⟨a, b, c, d, heq⟩ := endGauge_eq k.st
    have hcore := h.core.step .kill
    rw [Link.step]
    rw [St.step, heq] at hcore ⊢
    exact h.of_same hcore rfl rfl rfl rfl rfl

end

lemma new (first : UInt32) : Ordered E (new first) where
  core := core_new E first
  dense := by rintro i r ⟨⟩
  held := rfl
  sent := rfl
  increasing := List.Pairwise.nil
  recorded _ ht := by cases ht
  placed := trivial
  batched _ := trivial
  seen _ ht := by cases ht
  raced _ hr := by cases hr
  mark := le_rfl

end Ordered

/-! ### The shared gauge -/

/-- Carriers and the gauge they share: the sums of what they told it. -/
structure Sys where
  cs : List (Env × St)
  inflight : Int
  backlogged : Int

def Sys.step (y : Sys) (ev : Nat × Ev) : Sys :=
  match y.cs[ev.1]? with
  | none => y
  | some (E, s) =>
    { cs := y.cs.set ev.1 (E, s.step E ev.2)
      inflight := y.inflight + ((s.step E ev.2).added - s.added)
      backlogged := y.backlogged + ((s.step E ev.2).raised - s.raised) }

/-- New carriers, and a gauge that was told nothing. -/
def Sys.new (cs : List (Env × UInt32)) : Sys where
  cs := cs.map fun c => (c.1, St.new c.2)
  inflight := 0
  backlogged := 0

/-- The gauge is the sum of the contributions. -/
structure Sys.Summed (y : Sys) : Prop where
  told : ∀ c ∈ y.cs, c.2.Told
  inflight : y.inflight = (y.cs.map fun c => c.2.gContrib).sum
  backlogged : y.backlogged = (y.cs.map fun c => if c.2.gBacklog then (1 : Int) else 0).sum

lemma Sys.Summed.step {y : Sys} (h : y.Summed) (ev : Nat × Ev) : (y.step ev).Summed := by
  unfold Sys.step
  split
  · exact h
  rename_i E s hs
  have htold := h.told _ (mem_of_getElem? hs)
  have htold' := htold.step E ev.2
  refine ⟨fun c hc => ?_, ?_, ?_⟩
  · rcases mem_or_eq_of_mem_set hc with hc | rfl
    · exact h.told c hc
    · exact htold'
  · dsimp only
    rw [sum_map_set _ hs, h.inflight, htold.added, htold'.added]
  · dsimp only
    rw [sum_map_set _ hs, h.backlogged, htold.raised, htold'.raised]

end Rendr.Carrier.Pings
