import Rendr.Carrier.Read

/-!
# Reading does not depend on the cuts

The reader against a parser that has the whole stream (`refLoop`, on `decodeFrame`). What relates
them is one equation: the octets in the stage followed by those the conn still delivers are the
stream from the reader's position on. `fill` moves octets from the conn to the stage, the other
paths take them from both, and each path returns the payload and leaves the stream behind the frame
(`Next`), whatever the cuts were.

* `reading_is_parsing` — for every stream, every way it is cut and every error at its end, the
  reader hands over the frames of the reference and stops where it stops; a read error is reported
  only where the rest of the stream is no complete frame.
-/

namespace Rendr.Carrier.Read

open List Octets Wire

/-! ### Octets -/

variable {a r : Bytes}

lemma slice_front {i n : Nat} (h : i + n ≤ a.length) : slice (a ++ r) i n = slice a i n := by
  rw [slice, slice, drop_append_of_le_length (by omega),
    take_append_of_le_length (by rw [length_drop]; omega)]

lemma get32_front {i : Nat} (h : i + 4 ≤ a.length) :
    get32 (a ++ r) i = get32 a i := by rw [get32, get32, slice_front h]

lemma get64_front {i : Nat} (h : i + 8 ≤ a.length) :
    get64 (a ++ r) i = get64 a i := by rw [get64, get64, slice_front h]

lemma get8_front {i : Nat} (h : i < a.length) : get8 (a ++ r) i = get8 a i := by
  rw [get8, get8, getD_eq_getElem?_getD, getD_eq_getElem?_getD,
    getElem?_append_left h]

lemma crcUpdate_append (c : UInt32) (a b : Bytes) :
    crcUpdate (crcUpdate c a) b = crcUpdate c (a ++ b) := by
  simp [crcUpdate]

lemma parseHeader_front (h : headerLen ≤ a.length) : parseHeader (a ++ r) = parseHeader a := by
  have hl : headerLen ≤ (a ++ r).length := by rw [length_append]; omega
  have hf : headerFields (a ++ r) = headerFields a := by
    unfold headerLen at h
    simp only [headerFields, get24]
    rw [get8_front (by omega), get8_front (by omega), slice_front (by omega),
      get32_front (by omega), get32_front (by omega)]
  rw [parseHeader, parseHeader, if_neg (not_lt.mpr hl), if_neg (not_lt.mpr h), hf]

/-! ### The conn and the stage -/

lemma read_spec {c c' : Conn} {len : Nat} {bs : Bytes} {err : Bool}
    (h : c.read len = (bs, err, c')) : c.rest = bs ++ c'.rest ∧ bs.length ≤ len ∧
      (err = true → c'.rest = []) ∧ (0 < len → c.rest ≠ [] → bs ≠ []) := by
  simp only [Conn.read, Prod.mk.injEq] at h
  obtain ⟨rfl, rfl, rfl⟩ := h
  refine ⟨(take_append_drop ..).symm, ?_, fun he => ?_, fun hlen hne hnil => ?_⟩
  · rw [length_take]
    omega
  · simp only [Bool.or_eq_true, List.isEmpty_iff, Bool.and_eq_true, decide_eq_true_eq] at he
    rcases he with he | he
    · rw [he, drop_nil]
    · exact drop_eq_nil_of_le (by omega)
  have hpos := length_pos_iff.mpr hne
  have := congrArg List.length hnil
  rw [length_take, length_nil] at this
  omega

/-- The stage holds what it has room for, and a pending error is the conn's last answer. -/
structure Wf (rd : Reader) (c : Conn) : Prop where
  room : rd.r + rd.held.length ≤ stageLen
  pending : rd.pending = true → c.rest = []

/-- The stage has `need` octets of the stream, or the stream has fewer. -/
def Filled (need : Nat) (rd : Reader) (c : Conn) (res : Option (Reader × Conn)) : Prop :=
  (need ≤ (rd.held ++ c.rest).length → ∃ rd' c', res = some (rd', c') ∧
    rd'.held ++ c'.rest = rd.held ++ c.rest ∧ need ≤ rd'.held.length ∧ Wf rd' c' ∧
    rd'.fseq = rd.fseq) ∧
  ((rd.held ++ c.rest).length < need → res = none)

lemma fillLoop_spec {need : Nat} (hneed : need ≤ stageLen) (rd : Reader) (c : Conn)
    (h : Wf rd c) : Filled need rd c (fillLoop need rd c) := by
  induction hlen : c.rest.length using Nat.strong_induction_on generalizing rd c with
  | _ len ih =>
    subst hlen
    rw [fillLoop]
    split
    next hle =>
      refine ⟨fun _ => ⟨rd, c, rfl, rfl, hle, h, rfl⟩, fun hlt => ?_⟩
      rw [length_append] at hlt
      omega
    rename_i hle
    split
    next hp =>
      refine ⟨fun hx => ?_, fun _ => rfl⟩
      rw [h.pending hp, append_nil] at hx
      omega
    dsimp only
    have hr : (if stageLen - rd.r < need then 0 else rd.r) + rd.held.length ≤ stageLen ∧
        0 < stageLen - ((if stageLen - rd.r < need then 0 else rd.r) + rd.held.length) := by
      have := h.room
      split <;> omega
    generalize (if stageLen - rd.r < need then 0 else rd.r) = r at hr ⊢
    split
    next err c' hread =>
      obtain ⟨hrest, -, -, hne⟩ := read_spec hread
      have hnil : c.rest = [] := by
        by_contra hx
        exact hne hr.2 hx rfl
      refine ⟨fun hx => ?_, fun _ => rfl⟩
      rw [hnil, append_nil] at hx
      omega
    rename_i b bs err c' hread
    obtain ⟨hrest, hbs, herr, -⟩ := read_spec hread
    have hstream : (rd.held ++ b :: bs) ++ c'.rest = rd.held ++ c.rest := by
      rw [append_assoc, ← hrest]
    have hsmall : c'.rest.length < c.rest.length := by
      rw [hrest, length_append, length_cons]
      omega
    have hwf : Wf { rd with r := r, held := rd.held ++ b :: bs, pending := err } c' :=
      ⟨by simp only [length_append]; omega, herr⟩
    obtain ⟨h1, h2⟩ := ih _ hsmall { rd with r := r, held := rd.held ++ b :: bs, pending := err }
      c' hwf rfl
    dsimp only at h1 h2
    rw [hstream] at h1 h2
    exact ⟨h1, h2⟩

/-- **The stage is filled** when the stream has the octets, and a read error is reported when it has
not. -/
lemma fill_spec {need : Nat} (hneed : need ≤ stageLen) {rd : Reader} {c : Conn} (h : Wf rd c) :
    Filled need rd c (fill need rd c) := by
  unfold fill
  split
  next he =>
    have hnil : rd.held = [] := List.isEmpty_iff.mp he
    exact fillLoop_spec hneed { rd with r := 0 } c ⟨by simp [hnil], h.pending⟩
  · exact fillLoop_spec hneed rd c h

lemma Wf.consume {rd : Reader} {c : Conn} (h : Wf rd c) {n : Nat} (hn : n ≤ rd.held.length) :
    Wf (rd.consume n) c :=
  ⟨by
    have := h.room
    simp only [Reader.consume, length_drop]
    omega, h.pending⟩

lemma gather_spec {want limit : Nat} (hwant : want ≤ limit) (got : Bytes) (pending : Bool)
    (c : Conn) (hp : pending = true → c.rest = []) :
    (want ≤ (got ++ c.rest).length → ∃ buf p c', gather want limit got pending c = some (buf, p, c') ∧
      buf ++ c'.rest = got ++ c.rest ∧ want ≤ buf.length ∧ buf.length ≤ max got.length limit ∧
      (p = true → c'.rest = []) ∧ (want ≤ got.length → buf = got)) ∧
    ((got ++ c.rest).length < want → gather want limit got pending c = none) := by
  induction hlen : c.rest.length using Nat.strong_induction_on generalizing got pending c with
  | _ len ih =>
    subst hlen
    rw [gather]
    split
    next hle =>
      refine ⟨fun _ => ⟨got, pending, c, rfl, rfl, hle, Nat.le_max_left .., hp, fun _ => rfl⟩,
        fun hlt => ?_⟩
      rw [length_append] at hlt
      omega
    rename_i hle
    split
    next hpend =>
      refine ⟨fun hx => ?_, fun _ => rfl⟩
      rw [hp hpend, append_nil] at hx
      omega
    split
    next err c' hread =>
      obtain ⟨hrest, -, -, hne⟩ := read_spec hread
      have hnil : c.rest = [] := by
        by_contra hx
        exact hne (by omega) hx rfl
      refine ⟨fun hx => ?_, fun _ => rfl⟩
      rw [hnil, append_nil] at hx
      omega
    rename_i b bs err c' hread
    obtain ⟨hrest, hbs, herr, -⟩ := read_spec hread
    have hstream : (got ++ b :: bs) ++ c'.rest = got ++ c.rest := by
      rw [append_assoc, ← hrest]
    have hsmall : c'.rest.length < c.rest.length := by
      rw [hrest, length_append, length_cons]
      omega
    have hlim : (got ++ b :: bs).length ≤ limit := by
      rw [length_append]
      omega
    split
    · -- the error came with the last octets, and the frame is not complete
      rename_i hend
      simp only [Bool.and_eq_true, decide_eq_true_eq] at hend
      refine ⟨fun hx => ?_, fun _ => rfl⟩
      rw [← hstream, herr hend.1, append_nil] at hx
      omega
    obtain ⟨h1, h2⟩ := ih _ hsmall (got ++ b :: bs) err c' herr rfl
    rw [hstream] at h1 h2
    refine ⟨fun hx => ?_, h2⟩
    obtain ⟨buf, p, c'', g1, g2, g3, g4, g5, -⟩ := h1 hx
    exact ⟨buf, p, c'', g1, g2, g3,
      le_trans g4 (Nat.max_le.mpr ⟨le_trans hlim (Nat.le_max_right ..),
        Nat.le_max_right ..⟩), g5, fun hw => absurd hw hle⟩

/-! ### The paths -/

/-- The octets of the frame behind a header. -/
def total (h : Header) : Nat := headerLen + h.len.toNat + trailerLen

/-- The stream starts with a whole frame of this header, and its checksum is right. -/
def Good (h : Header) (x : Bytes) : Prop :=
  total h ≤ x.length ∧ crc (x.take (headerLen + h.len.toNat)) = get32 x (headerLen + h.len.toNat)

/-- The reader is behind the frame. -/
structure Next (h : Header) (rd : Reader) (c : Conn) (rd' : Reader) (c' : Conn) : Prop where
  stream : rd'.held ++ c'.rest = (rd.held ++ c.rest).drop (total h)
  wf : Wf rd' c'
  fseq : rd'.fseq = rd.fseq

/-- **What a path owes**: the payload of a good frame and the stream behind it, unless it refuses
the payload; nothing of another frame, and a read error only where the frame is not complete. -/
structure Reads (h : Header) (rd : Reader) (c : Conn) (payload : Bytes → Prop) (refuses : Prop)
    (res : Path) : Prop where
  good : Good h (rd.held ++ c.rest) →
    (∃ p rd' c', res = .ok (p, rd', c') ∧ payload p ∧ Next h rd c rd' c') ∨
      (refuses ∧ res = .error .violation)
  bad : ¬Good h (rd.held ++ c.rest) →
    ∃ s, res = .error s ∧ (s = .read → (rd.held ++ c.rest).length < total h)

variable {h : Header} {rd : Reader} {c : Conn}

lemma readStaged_reads (hwf : Wf rd c) (hle : total h ≤ stageLen) :
    Reads h rd c (· = slice (rd.held ++ c.rest) headerLen h.len.toNat) False (readStaged h rd c) := by
  obtain ⟨h1, h2⟩ := fill_spec hle hwf
  by_cases hlen : total h ≤ (rd.held ++ c.rest).length
  · obtain ⟨rd', c', hf, hs, hheld, hwf', hfseq⟩ := h1 hlen
    have hgood : Good h (rd.held ++ c.rest) ↔ crc (rd'.held.take (headerLen + h.len.toNat)) =
        get32 rd'.held (headerLen + h.len.toNat) := by
      unfold total trailerLen at hheld
      rw [Good, ← hs, take_append_of_le_length (by omega), get32_front (by omega)]
      exact ⟨And.right, fun hx => ⟨hs ▸ hlen, hx⟩⟩
    have hread : readStaged h rd c = if crc (rd'.held.take (headerLen + h.len.toNat)) ≠
        get32 rd'.held (headerLen + h.len.toNat) then .error .violation
      else .ok (slice rd'.held headerLen h.len.toNat, rd'.consume (total h), c') := by
      rw [readStaged]
      rw [show headerLen + h.len.toNat + trailerLen = total h from rfl, hf]
    refine ⟨fun hg => .inl ?_, fun hg => ?_⟩
    · rw [hread, if_neg (not_not.mpr (hgood.mp hg))]
      refine ⟨_, _, _, rfl, ?_, ?_, hwf'.consume hheld, hfseq⟩
      · unfold total at hheld
        rw [← hs, slice_front (by omega)]
      · rw [← hs, drop_append_of_le_length hheld]
        rfl
    · rw [hread, if_pos fun hx => hg (hgood.mpr hx)]
      exact ⟨_, rfl, nofun⟩
  have hnone := h2 (not_le.mp hlen)
  have hread : readStaged h rd c = .error .read := by
    rw [readStaged]
    rw [show headerLen + h.len.toNat + trailerLen = total h from rfl, hnone]
  exact ⟨fun hg => absurd hg.1 hlen, fun _ => ⟨_, hread, fun _ => not_le.mp hlen⟩⟩

lemma readOwn_reads (hwf : Wf rd c) (hgt : stageLen < total h) :
    Reads h rd c (· = slice (rd.held ++ c.rest) headerLen h.len.toNat) False (readOwn h rd c) := by
  have hheld : rd.held.length < total h := by
    have := hwf.room
    omega
  have htake : rd.held.take (total h) = rd.held := take_of_length_le (le_of_lt hheld)
  have hdrop : rd.held.drop (total h) = [] := drop_eq_nil_of_le (le_of_lt hheld)
  obtain ⟨h1, h2⟩ := gather_spec (Nat.le_refl (total h)) rd.held rd.pending c hwf.pending
  by_cases hlen : total h ≤ (rd.held ++ c.rest).length
  · obtain ⟨buf, p, c', hg, hs, hbuf, hmax, hp, -⟩ := h1 hlen
    have hbl : buf.length = total h := by omega
    have hgood : Good h (rd.held ++ c.rest) ↔ crc (buf.take (headerLen + h.len.toNat)) =
        get32 buf (headerLen + h.len.toNat) := by
      unfold total trailerLen at hbl
      rw [Good, ← hs, take_append_of_le_length (by omega), get32_front (by omega)]
      exact ⟨And.right, fun hx => ⟨hs ▸ hlen, hx⟩⟩
    have hread : readOwn h rd c = if crc (buf.take (headerLen + h.len.toNat)) ≠
        get32 buf (headerLen + h.len.toNat) then .error .violation
      else .ok (slice buf headerLen h.len.toNat,
        { rd with r := 0, held := [], pending := p }, c') := by
      rw [readOwn]
      rw [show headerLen + h.len.toNat + trailerLen = total h from rfl, htake, hg, hdrop]
    refine ⟨fun hgd => .inl ?_, fun hgd => ?_⟩
    · rw [hread, if_neg (not_not.mpr (hgood.mp hgd))]
      refine ⟨_, _, _, rfl, ?_, ?_, ⟨Nat.zero_le _, hp⟩, rfl⟩
      · unfold total at hbl
        rw [← hs, slice_front (by omega)]
      · rw [← hs, ← hbl, drop_left]
        rfl
    · rw [hread, if_pos fun hx => hgd (hgood.mpr hx)]
      exact ⟨_, rfl, nofun⟩
  have hnone := h2 (not_le.mp hlen)
  have hread : readOwn h rd c = .error .read := by
    rw [readOwn]
    rw [show headerLen + h.len.toNat + trailerLen = total h from rfl, htake, hnone]
  exact ⟨fun hg => absurd hg.1 hlen, fun _ => ⟨_, hread, fun _ => not_le.mp hlen⟩⟩

/-- **Look-ahead.** A buffer that is filled from the stage and the conn up to `want` octets, and at
most `limit`, has the stream's next octets; what is beyond them goes back to the stage. -/
lemma gather_lookAhead {want limit : Nat} (hwant : want ≤ limit)
    (hlim : limit - want ≤ stageLen) (hwf : Wf rd c) :
    (want ≤ (rd.held ++ c.rest).length → ∃ buf p c',
      gather want limit (rd.held.take want) rd.pending c = some (buf, p, c') ∧
      want ≤ buf.length ∧ buf.take want = (rd.held ++ c.rest).take want ∧
      (buf.drop want ++ rd.held.drop want) ++ c'.rest = (rd.held ++ c.rest).drop want ∧
      Wf { rd with r := if rd.held.length < want then 0 else rd.r + want
                   held := buf.drop want ++ rd.held.drop want
                   pending := p } c') ∧
    ((rd.held ++ c.rest).length < want →
      gather want limit (rd.held.take want) rd.pending c = none) := by
  obtain ⟨h1, h2⟩ := gather_spec hwant (rd.held.take want) rd.pending c hwf.pending
  have hroom := hwf.room
  by_cases hheld : rd.held.length < want
  · have htake : rd.held.take want = rd.held := take_of_length_le (le_of_lt hheld)
    have hdrop : rd.held.drop want = [] := drop_eq_nil_of_le (le_of_lt hheld)
    rw [htake] at h1 h2 ⊢
    refine ⟨fun hlen => ?_, h2⟩
    obtain ⟨buf, p, c', g1, g2, g3, g4, g5, -⟩ := h1 hlen
    refine ⟨buf, p, c', g1, g3, ?_, ?_, ?_, g5⟩
    · rw [← g2, take_append_of_le_length g3]
    · rw [hdrop, append_nil, ← g2, drop_append_of_le_length g3]
    · clear h1 h2
      simp only [hdrop, append_nil, length_drop, if_pos hheld]
      omega
  have hgot : (rd.held.take want).length = want := by
    rw [length_take]
    omega
  refine ⟨fun _ => ?_, fun hlen => ?_⟩
  · obtain ⟨buf, p, c', g1, g2, g3, -, g5, g6⟩ := h1 (by rw [length_append]; omega)
    obtain rfl := g6 (le_of_eq hgot.symm)
    have hrest : c'.rest = c.rest := append_cancel_left g2
    have hdrop : (rd.held.take want).drop want = [] :=
      drop_eq_nil_of_le (le_of_eq hgot)
    refine ⟨_, p, c', g1, g3, ?_, ?_, ?_, g5⟩
    · rw [take_take, Nat.min_self, take_append_of_le_length (by omega)]
    · rw [hdrop, nil_append, hrest, drop_append_of_le_length (by omega)]
    · simp only [hdrop, nil_append, length_drop, if_neg hheld]
      omega
  · rw [length_append] at hlen
    omega

/-- A big payload refuses the offsets that DATA cannot have. -/
lemma readBigData_reads (hwf : Wf rd c) (hbig : bigData ≤ h.len.toNat - dataPrefixLen) :
    Reads h rd c (· = slice (rd.held ++ c.rest) headerLen h.len.toNat)
      (h.type ≠ typeDgram ∧ ∃ e, dataEnd (get64 (rd.held ++ c.rest) headerLen)
        (h.len.toNat - dataPrefixLen) = .error e) (readBigData h rd c) := by
  have hlen8 : dataPrefixLen + (h.len.toNat - dataPrefixLen) = h.len.toNat := by
    unfold bigData at hbig
    unfold dataPrefixLen at hbig ⊢
    omega
  have htotal : total h = dataHeadLen + (h.len.toNat - dataPrefixLen + trailerLen) := by
    unfold total dataHeadLen
    omega
  generalize hn : h.len.toNat - dataPrefixLen = n at *
  obtain ⟨h1, h2⟩ := fill_spec (show dataHeadLen ≤ stageLen by decide) hwf
  by_cases hhead : dataHeadLen ≤ (rd.held ++ c.rest).length
  swap
  · have hshort : (rd.held ++ c.rest).length < total h := by omega
    have hread : readBigData h rd c = .error .read := by
      rw [readBigData, h2 (not_le.mp hhead)]
    exact ⟨fun hg => absurd hg.1 (not_le.mpr hshort), fun _ => ⟨_, hread, fun _ => hshort⟩⟩
  obtain ⟨rd₁, c₁, hf, hs, hheld, hwf₁, hfseq⟩ := h1 hhead
  have hx : rd.held ++ c.rest = rd₁.held.take dataHeadLen ++ (rd₁.held.drop dataHeadLen ++ c₁.rest) := by
    rw [← append_assoc, take_append_drop, hs]
  have hhl : (rd₁.held.take dataHeadLen).length = dataHeadLen := by
    rw [length_take]
    omega
  have hbad := readBigData_refused h hf
  have hread := readBigData_gather h hf
  obtain ⟨g1, g2⟩ := gather_lookAhead
    (show n + trailerLen ≤ n + lookAhead by unfold trailerLen lookAhead; omega)
    (show n + lookAhead - (n + trailerLen) ≤ stageLen by
      unfold trailerLen lookAhead stageLen
      omega) (hwf₁.consume hheld)
  simp only [hn] at hbad hread
  have hy : (rd₁.consume dataHeadLen).held ++ c₁.rest = rd₁.held.drop dataHeadLen ++ c₁.rest := rfl
  rw [hy] at g1 g2
  generalize rd₁.held.take dataHeadLen = head at *
  generalize rd₁.held.drop dataHeadLen ++ c₁.rest = y at *
  have hxl : (rd.held ++ c.rest).length = dataHeadLen + y.length := by
    rw [hx, length_append, hhl]
  have hoff : get64 (rd.held ++ c.rest) headerLen = get64 head headerLen := by
    rw [hx, get64_front (by rw [hhl]; decide)]
  have hlast : headerLen + h.len.toNat = dataHeadLen + n := by
    unfold dataHeadLen
    omega
  rw [hoff]
  by_cases href : h.type ≠ typeDgram ∧ ∃ e, dataEnd (get64 head headerLen) n = .error e
  · exact ⟨fun _ => .inr ⟨href, hbad href⟩, fun _ => ⟨_, hbad href, (by simp)⟩⟩
  replace hread := hread href
  by_cases hlen : n + trailerLen ≤ y.length
  · obtain ⟨buf, p, c', k1, k2, k3, k4, k5⟩ := g1 hlen
    rw [show rd₁.pending = (rd₁.consume dataHeadLen).pending from rfl, k1] at hread
    dsimp only at hread
    have hbn : buf.take n = y.take n := by
      have := congrArg (List.take n) k3
      rwa [take_take, take_take, Nat.min_eq_left (Nat.le_add_right ..)] at this
    have hbt : get32 buf n = get32 y n := by
      have h4 : trailerLen = 4 := rfl
      have hsplit (z : Bytes) (hz : n + 4 ≤ z.length) :
          get32 z n = get32 (z.take (n + 4)) n := by
        conv_lhs => rw [← take_append_drop (n + 4) z]
        exact get32_front (by rw [length_take]; omega)
      rw [hsplit buf (h4 ▸ k2), hsplit y (h4 ▸ hlen), ← h4, k3]
    have hgood : Good h (rd.held ++ c.rest) ↔
        crcUpdate (crc head) (buf.take n) = get32 buf n := by
      rw [Good, hlast, hbn, hbt, hx, take_append, hhl, take_of_length_le (by omega),
        Nat.add_sub_cancel_left, get32_append (by omega), hhl, Nat.add_sub_cancel_left]
      rw [show crcUpdate (crc head) (y.take n) = crc (head ++ y.take n) from crcUpdate_append ..]
      exact ⟨And.right, fun hc => ⟨by rw [← hx, hxl, htotal]; omega, hc⟩⟩
    refine ⟨fun hg => .inl ?_, fun hg => ?_⟩
    · rw [hread, if_neg (not_not.mpr (hgood.mp hg))]
      refine ⟨_, _, _, rfl, ?_, ?_, k5, hfseq⟩
      · have h13 : headerLen ≤ head.length := by rw [hhl]; decide
        have h8 : (head.drop headerLen).length = dataPrefixLen := by
          rw [length_drop, hhl]
          decide
        have ht : (head.drop headerLen).take (dataPrefixLen + n) = head.drop headerLen :=
          take_of_length_le (by rw [h8]; omega)
        rw [hbn, hx, slice, drop_append_of_le_length h13, ← hlen8, take_append, ht, h8,
          Nat.add_sub_cancel_left]
      have hd : head.drop (dataHeadLen + (n + trailerLen)) = [] :=
        drop_eq_nil_of_le (by rw [hhl]; omega)
      rw [hx, htotal, drop_append, hd, hhl, nil_append, Nat.add_sub_cancel_left]
      exact k4
    · rw [hread, if_pos fun hc => hg (hgood.mpr hc)]
      exact ⟨_, rfl, (by simp)⟩
  have hshort : (rd.held ++ c.rest).length < total h := by omega
  rw [show rd₁.pending = (rd₁.consume dataHeadLen).pending from rfl,
    g2 (not_le.mp hlen)] at hread
  exact ⟨fun hg => absurd hg.1 (not_le.mpr hshort), fun _ => ⟨_, hread, fun _ => hshort⟩⟩

/-- The octets of a payload that its fixed part still takes. -/
def keep (isPing : Bool) (fixed : Bytes) : Nat :=
  if isPing then pingFixedLen - fixed.length else 0

/-- Octets of a PING behind its fixed part are zero. -/
def PadOk (isPing : Bool) (fixed x : Bytes) : Prop :=
  isPing = true → ∀ b ∈ x.drop (keep isPing fixed), b = 0

lemma keep_eq (isPing : Bool) (fixed : Bytes) (k : Nat) :
    (if isPing then min (pingFixedLen - fixed.length) k else 0) = min (keep isPing fixed) k := by
  cases isPing <;> simp [keep]

variable {x : Bytes}

lemma take_min {n k : Nat} (h : x.length = k) : x.take (min n k) = x.take n := by
  rw [← h, ← take_eq_take_min]

lemma keep_next (isPing : Bool) (fixed : Bytes) {chunk : Bytes} {k : Nat}
    (hk : chunk.length = k) :
    keep isPing (fixed ++ chunk.take (min (keep isPing fixed) k)) = keep isPing fixed - k := by
  cases isPing with
  | false => simp [keep]
  | true =>
    simp only [keep, if_true, length_append, length_take]
    omega

/-- The pad of a payload is the pad of its first chunk and that of the rest. -/
lemma padOk_append (isPing : Bool) (fixed y : Bytes) {chunk : Bytes} {k : Nat}
    (hk : chunk.length = k) : PadOk isPing fixed (chunk ++ y) ↔
      (isPing = true → ∀ b ∈ chunk.drop (min (keep isPing fixed) k), b = 0) ∧
      PadOk isPing (fixed ++ chunk.take (min (keep isPing fixed) k)) y := by
  have hdrop : chunk.drop (min (keep isPing fixed) k) = chunk.drop (keep isPing fixed) := by
    rcases Nat.le_total (keep isPing fixed) k with hle | hle
    · rw [Nat.min_eq_left hle]
    · rw [Nat.min_eq_right hle, drop_eq_nil_of_le (by omega), drop_eq_nil_of_le (by omega)]
  unfold PadOk
  rw [keep_next isPing fixed hk, drop_append, hk, hdrop]
  simp only [mem_append, or_imp, forall_and]

/-- A payload through the stage, chunk by chunk: the checksum, the fixed part and the pad are those
of the whole. -/
lemma streamLoop_spec (isPing : Bool) (remain : Nat) (sum : UInt32) (fixed : Bytes) (rd : Reader)
    (c : Conn) (hwf : Wf rd c) :
    (remain ≤ (rd.held ++ c.rest).length →
      PadOk isPing fixed ((rd.held ++ c.rest).take remain) → ∃ rd' c',
        streamLoop isPing remain sum fixed rd c =
          .ok (crcUpdate sum ((rd.held ++ c.rest).take remain),
            fixed ++ ((rd.held ++ c.rest).take remain).take (keep isPing fixed), rd', c') ∧
        rd'.held ++ c'.rest = (rd.held ++ c.rest).drop remain ∧ Wf rd' c' ∧ rd'.fseq = rd.fseq) ∧
    (remain ≤ (rd.held ++ c.rest).length →
      ¬PadOk isPing fixed ((rd.held ++ c.rest).take remain) →
        streamLoop isPing remain sum fixed rd c = .error .violation) ∧
    ((rd.held ++ c.rest).length < remain →
      ∃ s, streamLoop isPing remain sum fixed rd c = .error s) := by
  induction hrem : remain using Nat.strong_induction_on generalizing remain sum fixed rd c with
  | _ n ih =>
    subst hrem
    rw [streamLoop]
    split
    next h0 =>
      subst h0
      refine ⟨fun _ _ => ⟨rd, c, by simp [crcUpdate], by simp, hwf, rfl⟩, fun _ hp => ?_,
        fun hx => absurd hx (Nat.not_lt_zero _)⟩
      exact absurd (fun _ b hb => by simp at hb) hp
    rename_i h0
    -- the stage is filled when it is empty
    obtain ⟨hfail, hsome⟩ : ((rd.held ++ c.rest) = [] →
          (if rd.held.isEmpty then fill 1 rd c else some (rd, c)) = none) ∧
        ((rd.held ++ c.rest) ≠ [] → ∃ rd₁ c₁,
          (if rd.held.isEmpty then fill 1 rd c else some (rd, c)) = some (rd₁, c₁) ∧
          rd₁.held ++ c₁.rest = rd.held ++ c.rest ∧ 1 ≤ rd₁.held.length ∧ Wf rd₁ c₁ ∧
          rd₁.fseq = rd.fseq) := by
      obtain ⟨f1, f2⟩ := fill_spec (show 1 ≤ stageLen by decide) hwf
      split
      · refine ⟨fun hx => f2 (by rw [hx]; exact Nat.one_pos), fun hx => f1 ?_⟩
        exact length_pos_iff.mpr hx
      rename_i he
      have hne : rd.held ≠ [] := fun hx => he (by rw [hx]; rfl)
      refine ⟨fun hx => absurd (append_eq_nil_iff.mp hx).1 hne, fun _ => ?_⟩
      exact ⟨rd, c, rfl, rfl, length_pos_iff.mpr hne, hwf, rfl⟩
    by_cases hnil : rd.held ++ c.rest = []
    · rw [hfail hnil, hnil]
      exact ⟨fun hx => absurd hx (by simpa using h0), fun hx => absurd hx (by simpa using h0),
        fun _ => ⟨_, rfl⟩⟩
    obtain ⟨rd₁, c₁, hif, hs, hpos, hwf₁, hfseq⟩ := hsome hnil
    rw [hif]
    dsimp only
    have hk0 : min remain rd₁.held.length ≠ 0 := by omega
    rw [dif_neg hk0]
    have hkr : min remain rd₁.held.length ≤ remain := min_le_left ..
    have hkh : min remain rd₁.held.length ≤ rd₁.held.length := min_le_right ..
    generalize min remain rd₁.held.length = k at *
    have hwf₂ := hwf₁.consume hkh
    have hx : rd.held ++ c.rest = rd₁.held.take k ++ ((rd₁.consume k).held ++ c₁.rest) := by
      rw [← hs, ← append_assoc]
      exact congrArg (· ++ c₁.rest) (take_append_drop ..).symm
    have hck : (rd₁.held.take k).length = k := by
      rw [length_take]
      omega
    rw [keep_eq isPing fixed k]
    obtain ⟨i1, i2, i3⟩ := ih (remain - k) (by omega) (remain - k) (crcUpdate sum (rd₁.held.take k))
      (fixed ++ (rd₁.held.take k).take (min (keep isPing fixed) k)) (rd₁.consume k) c₁ hwf₂ rfl
    generalize rd₁.held.take k = chunk at *
    generalize (rd₁.consume k).held ++ c₁.rest = y at *
    have htake : (rd.held ++ c.rest).take remain = chunk ++ y.take (remain - k) := by
      rw [hx, take_append, hck, take_of_length_le (by omega)]
    have hxl : (rd.held ++ c.rest).length = k + y.length := by rw [hx, length_append, hck]
    have hpad := padOk_append isPing fixed (y.take (remain - k)) hck
    rw [htake]
    split
    next hbad =>
      have hno : ¬PadOk isPing fixed (chunk ++ y.take (remain - k)) := fun hp => by
        have hzero := checkPad_none.mpr ((hpad.mp hp).1 hbad.1)
        rw [hzero] at hbad
        exact absurd hbad.2 nofun
      exact ⟨fun _ hp => absurd hp hno, fun _ _ => rfl, fun _ => ⟨_, rfl⟩⟩
    rename_i hgood
    have hzero : isPing = true → ∀ b ∈ chunk.drop (min (keep isPing fixed) k), b = 0 := by
      intro hping
      refine checkPad_none.mp ?_
      cases hc : checkPad (chunk.drop (min (keep isPing fixed) k)) with
      | none => rfl
      | some e => exact absurd ⟨hping, by rw [hc]; rfl⟩ hgood
    have hnext := keep_next isPing fixed hck
    refine ⟨fun hlen hp => ?_, fun hlen hp => ?_, fun hlen => i3 (by omega)⟩
    · obtain ⟨rd', c', j1, j2, j3, j4⟩ := i1 (by omega) (hpad.mp hp).2
      refine ⟨rd', c', ?_, ?_, j3, j4.trans hfseq⟩
      · rw [j1, crcUpdate_append, hnext, append_assoc, take_append, hck, take_min hck]
      · have hd : chunk.drop remain = [] := drop_eq_nil_of_le (by omega)
        rw [j2, hx, drop_append, hd, hck, nil_append]
    · exact i2 (by omega) fun hp2 => hp (hpad.mpr ⟨hzero, hp2⟩)

/-- A PING or a PONG. -/
def isPing (h : Header) : Bool := h.type == typePing || h.type == typePong

lemma readStreamed_reads (hwf : Wf rd c) (hhead : headerLen ≤ rd.held.length) :
    Reads h rd c
      (fun p => extension h.type = false → p = slice (rd.held ++ c.rest) headerLen h.len.toNat)
      (extension h.type = false ∧ isPing h = false ∨
        ¬PadOk (isPing h) [] (slice (rd.held ++ c.rest) headerLen h.len.toNat))
      (readStreamed h rd c) := by
  by_cases htype : (!extension h.type && !isPing h) = true
  · have hread : readStreamed h rd c = .error .violation := by
      rw [readStreamed]
      exact if_pos htype
    simp only [Bool.and_eq_true, Bool.not_eq_true'] at htype
    exact ⟨fun _ => .inr ⟨.inl htype, hread⟩, fun _ => ⟨_, hread, (by simp)⟩⟩
  obtain ⟨s1, s2, s3⟩ := streamLoop_spec (isPing h) h.len.toNat (crc (rd.held.take headerLen)) []
    (rd.consume headerLen) c (hwf.consume hhead)
  have hy : (rd.consume headerLen).held ++ c.rest = (rd.held ++ c.rest).drop headerLen := by
    rw [drop_append_of_le_length hhead]
    rfl
  have hsum : rd.held.take headerLen = (rd.held ++ c.rest).take headerLen := by
    rw [take_append_of_le_length hhead]
  have hread := readStreamed_loop rd c htype
  have hping : (h.type == typePing || h.type == typePong) = isPing h := rfl
  rw [hping] at hread
  rw [hy, hsum] at s1 s2 s3
  rw [hsum] at hread
  have hslice : ((rd.held ++ c.rest).drop headerLen).take h.len.toNat =
      slice (rd.held ++ c.rest) headerLen h.len.toNat := rfl
  rw [hslice] at s1 s2
  generalize hX : rd.held ++ c.rest = x at *
  have hxl : (x.drop headerLen).length = x.length - headerLen := length_drop ..
  have hxh : headerLen ≤ x.length := by
    rw [← hX, length_append]
    omega
  by_cases hlen : h.len.toNat ≤ (x.drop headerLen).length
  swap
  · obtain ⟨s, hs⟩ := s3 (not_le.mp hlen)
    rw [hs] at hread
    have hshort : x.length < total h := by
      unfold total
      omega
    exact ⟨fun hg => absurd hg.1 (by rw [hX]; omega),
      fun _ => ⟨s, hread, fun _ => by rw [hX]; exact hshort⟩⟩
  by_cases hpad : PadOk (isPing h) [] (slice x headerLen h.len.toNat)
  swap
  · rw [s2 hlen hpad] at hread
    exact ⟨fun _ => .inr ⟨.inr hpad, hread⟩, fun _ => ⟨_, hread, (by simp)⟩⟩
  obtain ⟨rd₂, c₂, t1, t2, hwf₂, hfseq⟩ := s1 hlen hpad
  rw [t1] at hread
  dsimp only at hread
  obtain ⟨f1, f2⟩ := fill_spec (show trailerLen ≤ stageLen by decide) hwf₂
  rw [t2, drop_drop] at f1 f2
  have hcrc : crcUpdate (crc (x.take headerLen)) (slice x headerLen h.len.toNat) =
      crc (x.take (headerLen + h.len.toNat)) := by
    rw [take_add]
    exact crcUpdate_append ..
  rw [hcrc] at hread
  have hdl : (x.drop (headerLen + h.len.toNat)).length = x.length - (headerLen + h.len.toNat) :=
    length_drop ..
  by_cases hend : trailerLen ≤ (x.drop (headerLen + h.len.toNat)).length
  swap
  · rw [f2 (not_le.mp hend)] at hread
    have hshort : x.length < total h := by
      unfold total
      omega
    exact ⟨fun hg => absurd hg.1 (by rw [hX]; omega),
      fun _ => ⟨_, hread, fun _ => by rw [hX]; exact hshort⟩⟩
  obtain ⟨rd₃, c₃, u1, u2, hheld, hwf₃, hfseq₃⟩ := f1 hend
  rw [u1] at hread
  dsimp only at hread
  have htrail : get32 rd₃.held 0 = get32 x (headerLen + h.len.toNat) := by
    have h1 : get32 (rd₃.held ++ c₃.rest) 0 = get32 rd₃.held 0 := 
      get32_front (by rw [Nat.zero_add]; exact hheld)
    rw [← h1, u2, get32, get32, slice, slice, drop_drop, Nat.add_zero]
  rw [htrail] at hread
  have hgood : Good h x ↔ crc (x.take (headerLen + h.len.toNat)) =
      get32 x (headerLen + h.len.toNat) :=
    ⟨And.right, fun hc => ⟨by clear f1 s1; unfold total; omega, hc⟩⟩
  rw [← hX] at hgood
  refine ⟨fun hg => .inl ?_, fun hg => ?_⟩
  · rw [hread, if_neg (not_not.mpr (hX ▸ hgood.mp hg))]
    refine ⟨_, _, _, rfl, fun hext => ?_, ?_, hwf₃.consume hheld, hfseq₃.trans hfseq⟩
    · have hp : isPing h = true := by
        rw [hext] at htype
        simpa using htype
      have hk : keep (isPing h) [] = pingFixedLen := by rw [hp]; rfl
      have hzero := eq_replicate_of_mem (hpad hp)
      rw [length_drop, hk, length_slice (by clear f1 s1; omega)] at hzero
      rw [nil_append, hk, ← hzero, take_append_drop]
    · rw [hX, show total h = headerLen + h.len.toNat + trailerLen from rfl, ← drop_drop, ← u2,
        drop_append_of_le_length hheld]
      rfl
  · rw [hread, if_pos fun hc => hg (hgood.mpr (by rw [hX]; exact hc))]
    exact ⟨_, rfl, (by simp)⟩

/-! ### One frame -/

lemma Reads.imp {pay pay' : Bytes → Prop} {ref ref' : Prop} {res : Path}
    (hr : Reads h rd c pay ref res) (hpay : ∀ p, pay p → pay' p)
    (href : Good h (rd.held ++ c.rest) → ref → ref') : Reads h rd c pay' ref' res where
  good hg := by
    rcases hr.good hg with ⟨p, rd', c', h1, h2, h3⟩ | ⟨h1, h2⟩
    · exact .inl ⟨p, rd', c', h1, hpay p h2, h3⟩
    · exact .inr ⟨href hg h1, h2⟩
  bad := hr.bad

/-- An admitted header keeps the bounds of its type. -/
lemma len_bounds (hadm : h.Admitted) (hext : extension h.type = false) :
    (payloadBounds h.type).1 ≤ h.len.toNat ∧ h.len.toNat ≤ (payloadBounds h.type).2.1 := by
  unfold Header.Admitted checkHeader at hadm
  split_ifs at hadm with h1 h2 h3 h4 h5 h6
  · rw [hext] at h2
    cases h2
  · omega

/-- The payloads of most types are short: the table of the types, octet by octet. -/
lemma payloadBounds_le (t : UInt8) (hext : extension t = false)
    (ht : t ∉ [typeOpen, typeData, typeDgram, typeRel, typePing, typePong]) :
    (payloadBounds t).2.1 ≤ 400 := by
  have htable : ∀ n < 256, extension (UInt8.ofNat n) = false →
      UInt8.ofNat n ∉ [typeOpen, typeData, typeDgram, typeRel, typePing, typePong] →
        (payloadBounds (UInt8.ofNat n)).2.1 ≤ 400 := by decide +kernel
  have := htable t.toNat t.toNat_lt
  rw [UInt8.ofNat_toNat] at this
  exact this hext ht

/-- The types with payloads beyond the stage. -/
lemma total_le (hadm : h.Admitted) (hext : extension h.type = false) (hopen : h.type ≠ typeOpen)
    (hdata : h.type ≠ typeData) (hdgram : h.type ≠ typeDgram) (hrel : h.type ≠ typeRel)
    (hping : isPing h = false) : total h ≤ stageLen := by
  have hle := (len_bounds hadm hext).2
  have hmax := payloadBounds_le h.type hext (by
    simp only [isPing, Bool.or_eq_false_iff, beq_eq_false_iff_ne] at hping
    simp only [mem_cons, not_mem_nil, or_false, not_or]
    exact ⟨hopen, hdata, hdgram, hrel, hping⟩)
  unfold total stageLen headerLen trailerLen
  omega

lemma slice_get64 {i n : Nat} (hn : 8 ≤ n) : get64 (slice x i n) 0 = get64 x i := by
  rw [get64, get64, slice, slice, slice, drop_zero, take_take, Nat.min_eq_left hn]

variable {route : Option Route}

lemma payloadOk_data {p : Bytes} {e : WireErr} (hmux : route ≠ some .mux) (ht : h.type = typeData)
    (hp : parseDataOffset p = .error e) : payloadOk route ⟨h, p⟩ = false := by
  rcases route with _ | _ | _ | _
  case some.mux => exact absurd rfl hmux
  all_goals
    simp only [payloadOk, ht, hp]
    rfl

lemma payloadOk_dgram {p : Bytes} (hmux : route ≠ some .mux) (ht : h.type = typeDgram)
    (hv : route ≠ some (.view true)) : payloadOk route ⟨h, p⟩ = false := by
  have hb : (route == some (.view true)) = false := beq_eq_false_iff_ne.mpr hv
  rcases route with _ | _ | _ | _
  case some.mux => exact absurd rfl hmux
  all_goals
    simp only [payloadOk, ht, hb, Bool.false_and]
    rfl

lemma payloadOk_ping (hmux : route ≠ some .mux) (hadm : h.Admitted)
    (hp : isPing h = true) (hlen : headerLen + h.len.toNat ≤ x.length)
    (hpad : ¬PadOk (isPing h) [] (slice x headerLen h.len.toNat)) :
    extension h.type = false ∧ payloadOk route ⟨h, slice x headerLen h.len.toNat⟩ = false := by
  have ht : h.type = typePing ∨ h.type = typePong := by simpa [isPing] using hp
  have hext : extension h.type = false := by
    rcases ht with ht | ht <;> rw [ht] <;> decide
  have hbound : payloadBounds h.type = (pingFixedLen, pingFixedLen + maxPingPad, true) := by
    rcases ht with ht | ht <;> rw [ht] <;> decide
  have hb := len_bounds hadm hext
  rw [hbound] at hb
  dsimp only at hb
  refine ⟨hext, ?_⟩
  have hparse : ∃ e, parsePing (slice x headerLen h.len.toNat) = .error e := by
    rw [parsePing, length_slice hlen, if_neg (by omega)]
    rw [if_neg (by omega)]
    cases hc : checkPad ((slice x headerLen h.len.toNat).drop pingFixedLen) with
    | some e => exact ⟨_, rfl⟩
    | none =>
      refine absurd (fun _ b hb => ?_) hpad
      have hk : keep (isPing h) [] = pingFixedLen := by rw [hp]; rfl
      rw [hk] at hb
      exact checkPad_none.mp hc b hb
  obtain ⟨e, he⟩ := hparse
  rcases route with _ | _ | _ | _
  case some.mux => exact absurd rfl hmux
  all_goals
    simp only [payloadOk, if_pos ht]
    rw [he]

lemma readPayload_reads (hwf : Wf rd c) (hhead : headerLen ≤ rd.held.length)
    (hadm : h.Admitted) (route : Option Route) (hrel : h.type ≠ typeRel)
    (hview : route ≠ some .mux → extension h.type = false → h.type ≠ typeOpen) :
    Reads h rd c
      (fun p => extension h.type = false → p = slice (rd.held ++ c.rest) headerLen h.len.toNat)
      (extension h.type = false ∧
        payloadOk route ⟨h, slice (rd.held ++ c.rest) headerLen h.len.toNat⟩ = false)
      (readPayload route h rd c) := by
  have htotal : headerLen + h.len.toNat + trailerLen = total h := rfl
  have hdataExt : extension typeData = false := by decide
  unfold readPayload
  rw [htotal]
  by_cases hmux : route = some .mux
  · rw [if_pos hmux]
    split
    next hle => exact (readStaged_reads hwf hle).imp (fun _ hp _ => hp) fun _ hf => hf.elim
    next hle => exact (readOwn_reads hwf (not_le.mp hle)).imp (fun _ hp _ => hp) fun _ hf => hf.elim
  rw [if_neg hmux]
  by_cases hdata : h.type = typeData ∧ bigData ≤ h.len.toNat - dataPrefixLen
  · rw [if_pos hdata]
    refine (readBigData_reads hwf hdata.2).imp (fun _ hp _ => hp) fun hg href => ?_
    obtain ⟨-, e, he⟩ := href
    have hlen : headerLen + h.len.toNat ≤ (rd.held ++ c.rest).length :=
      le_trans (Nat.le_add_right ..) hg.1
    have h8 : dataPrefixLen ≤ h.len.toNat := by
      have := hdata.2
      unfold bigData dataPrefixLen at this
      unfold dataPrefixLen
      omega
    refine ⟨hdata.1 ▸ hdataExt, ?_⟩
    have hparse : parseDataOffset (slice (rd.held ++ c.rest) headerLen h.len.toNat) = .error e := by
      rw [parseDataOffset, length_slice hlen, if_neg (not_lt.mpr h8), slice_get64 h8, he]
    exact payloadOk_data hmux hdata.1 hparse
  rw [if_neg hdata]
  by_cases hdgram : h.type = typeDgram ∧ route = some (.view true) ∧
      bigData ≤ h.len.toNat - dgramPrefixLen
  · rw [if_pos hdgram]
    exact (readBigData_reads hwf hdgram.2.2).imp (fun _ hp _ => hp) fun _ href =>
      absurd hdgram.1 href.1
  rw [if_neg hdgram]
  split
  next hle => exact (readStaged_reads hwf hle).imp (fun _ hp _ => hp) fun _ hf => hf.elim
  rename_i hgt
  refine (readStreamed_reads hwf hhead).imp (fun _ hp => hp) fun hg href => ?_
  have hlen : headerLen + h.len.toNat ≤ (rd.held ++ c.rest).length :=
    le_trans (Nat.le_add_right ..) hg.1
  have hnd : h.type ≠ typeData := fun ht => by
    have hsmall : ¬bigData ≤ h.len.toNat - dataPrefixLen := fun hb => hdata ⟨ht, hb⟩
    unfold bigData dataPrefixLen at hsmall
    unfold total stageLen headerLen trailerLen at hgt
    omega
  rcases href with ⟨hext, hping⟩ | hpad
  · -- the only other payload beyond the stage is a DGRAM, of a session that takes none
    have hdg : h.type = typeDgram := by
      by_contra hd
      exact hgt (total_le hadm hext (hview hmux hext) hnd hd hrel hping)
    refine ⟨hext, payloadOk_dgram hmux hdg fun hv => hdgram ⟨hdg, hv, ?_⟩⟩
    unfold total stageLen headerLen trailerLen at hgt
    unfold bigData dgramPrefixLen
    omega
  have hp : isPing h = true := by
    by_contra hp
    exact hpad fun hx => absurd hx hp
  exact payloadOk_ping hmux hadm hp hlen hpad

/-- What a header that passes `readFrame` allows. -/
lemma verdict_take {env : Env} {seen : List Frame} {fseq : UInt32}
    (hv : verdict env seen fseq h = .take route) :
    h.type ≠ typeRel ∧ extension h.type = false ∧ (route ≠ some .mux → h.type ≠ typeOpen) := by
  unfold verdict at hv
  split at hv
  · cases hv
  split at hv
  · cases hv
  split at hv
  · cases hv
  rename_i hrel
  split at hv
  · cases hv
  rename_i hext
  refine ⟨fun ht => hrel (.inl ht), by simpa using hext, fun hmux ht => ?_⟩
  split at hv
  next hc =>
    rw [ht] at hc
    exact absurd hc (by decide)
  split at hv
  · cases hv
  · cases hv
    exact hmux rfl
  split at hv
  · cases hv
  next hfirst => exact hfirst (by rw [ht]; decide)

lemma verdict_skip {env : Env} {seen : List Frame} {fseq : UInt32}
    (hv : verdict env seen fseq h = .skip) : h.type ≠ typeRel ∧ extension h.type = true := by
  unfold verdict at hv
  split at hv
  · cases hv
  split at hv
  · cases hv
  split at hv
  · cases hv
  rename_i hrel
  split at hv
  next hext => exact ⟨fun ht => hrel (.inl ht), hext⟩
  split at hv
  · cases hv
  split at hv
  · cases hv
  · cases hv
  · split at hv <;> cases hv

/-- **What one frame comes to**, for the parser that has the whole stream. -/
inductive RefStep
  | stop
  | skip (n : Nat)
  | got (f : Frame) (n : Nat)

/-- The reference reads one frame of a stream. -/
def refFrame (env : Env) (seen : List Frame) (fseq : UInt32) (x : Bytes) : RefStep :=
  match decodeFrame x with
  | .error _ => .stop
  | .ok (f, n) =>
    match verdict env seen fseq f.header with
    | .refuse => .stop
    | .skip => .skip n
    | .take route => if payloadOk route f then .got f n else .stop

/-- The reader behind a frame of `n` octets. -/
structure Behind (rd : Reader) (c : Conn) (n : Nat) (rd' : Reader) (c' : Conn) : Prop where
  stream : rd'.held ++ c'.rest = (rd.held ++ c.rest).drop n
  wf : Wf rd' c'
  fseq : rd'.fseq = rd.fseq + 1

/-- **One frame, however it is cut.** -/
def Agrees (rd : Reader) (c : Conn) : RefStep → Step → Prop
  | .stop, s => ∃ r, s = .stop r ∧
      (r = .read → decodeFrame (rd.held ++ c.rest) = .error .short)
  | .skip n, s => ∃ rd' c', s = .skip n rd' c' ∧ 0 < n ∧ Behind rd c n rd' c' ∧
      n ≤ (rd.held ++ c.rest).length
  | .got f n, s => ∃ rd' c', s = .got f rd' c' ∧ n = frameLen f ∧ Behind rd c n rd' c' ∧
      n ≤ (rd.held ++ c.rest).length

lemma readFrame_agrees (env : Env) (seen : List Frame) (hwf : Wf rd c) :
    Agrees rd c (refFrame env seen rd.fseq (rd.held ++ c.rest)) (readFrame env seen rd c) := by
  obtain ⟨h1, h2⟩ := fill_spec (show headerLen ≤ stageLen by decide) hwf
  by_cases hlen : headerLen ≤ (rd.held ++ c.rest).length
  swap
  · have hshort : decodeFrame (rd.held ++ c.rest) = .error .short := by
      rw [decodeFrame, parseHeader, if_pos (not_le.mp hlen)]
    rw [refFrame, hshort, readFrame, h2 (not_le.mp hlen)]
    exact ⟨_, rfl, fun _ => hshort⟩
  obtain ⟨rd₁, c₁, hf, hs, hheld, hwf₁, hfseq⟩ := h1 hlen
  have hparse : parseHeader (rd.held ++ c.rest) = parseHeader rd₁.held := by
    rw [← hs, parseHeader_front hheld]
  unfold readFrame
  rw [hf]
  dsimp only
  cases hh : parseHeader rd₁.held with
  | error e =>
    have hdec : decodeFrame (rd.held ++ c.rest) = .error e := by
      rw [decodeFrame, hparse, hh]
    rw [refFrame, hdec]
    exact ⟨_, rfl, (by simp)⟩
  | ok h =>
    have hadm : h.Admitted := by
      rw [parseHeader, if_neg (not_lt.mpr hheld)] at hh
      have := checkHeader_eq hh
      subst this
      exact hh
    have hdec : decodeFrame (rd.held ++ c.rest) =
        if (rd.held ++ c.rest).length < total h then .error .short
        else if crc ((rd.held ++ c.rest).take (headerLen + h.len.toNat)) ≠
          get32 (rd.held ++ c.rest) (headerLen + h.len.toNat) then .error .crc
        else .ok (⟨h, slice (rd.held ++ c.rest) headerLen h.len.toNat⟩, total h) := by
      rw [decodeFrame, hparse, hh]
      rfl
    have hreads (route : Option Route) (hrel : h.type ≠ typeRel)
        (hview : route ≠ some .mux → extension h.type = false → h.type ≠ typeOpen) :=
      readPayload_reads hwf₁ hheld hadm route hrel hview
    have hnext {rd' : Reader} {c' : Conn} (hn : Next h rd₁ c₁ rd' c') :
        Behind rd c (total h) { rd' with fseq := rd'.fseq + 1 } c' :=
      ⟨hn.stream.trans (by rw [hs]), ⟨hn.wf.room, hn.wf.pending⟩, by rw [hn.fseq, hfseq]⟩
    by_cases hg : Good h (rd.held ++ c.rest)
    · have hd : decodeFrame (rd.held ++ c.rest) =
          .ok (⟨h, slice (rd.held ++ c.rest) headerLen h.len.toNat⟩, total h) := by
        rw [hdec, if_neg (not_lt.mpr hg.1), if_neg (not_not.mpr hg.2)]
      have hpl : (slice (rd.held ++ c.rest) headerLen h.len.toNat).length = h.len.toNat :=
        length_slice (le_trans (Nat.le_add_right ..) hg.1)
      rw [refFrame, hd, hfseq]
      dsimp only
      cases hv : verdict env seen rd.fseq h with
      | refuse => exact ⟨_, rfl, (by simp)⟩
      | skip =>
        obtain ⟨hrel, hext⟩ := verdict_skip hv
        rcases (hreads none hrel fun _ hx => absurd (hx.symm.trans hext) (by simp)).good (hs ▸ hg)
          with ⟨p, rd', c', he, -, hn⟩ | ⟨⟨hx, -⟩, -⟩
        · dsimp only
          rw [he]
          exact ⟨_, _, rfl, lt_of_lt_of_le (by decide : 0 < trailerLen) (Nat.le_add_left ..),
            hnext hn, hg.1⟩
        · exact absurd (hx.symm.trans hext) (by simp)
      | take route =>
        obtain ⟨hrel, hext, hopen⟩ := verdict_take hv
        dsimp only
        rcases (hreads route hrel fun hm _ => hopen hm).good (hs ▸ hg)
          with ⟨p, rd', c', he, hp, hn⟩ | ⟨⟨-, hno⟩, he⟩
        · obtain rfl := hp hext
          rw [hs] at he
          rw [he]
          dsimp only
          split
          · refine ⟨_, _, rfl, ?_, hnext hn, hg.1⟩
            rw [frameLen, hpl]
            rfl
          · exact ⟨_, rfl, (by simp)⟩
        · rw [hs] at hno
          rw [he, hno]
          exact ⟨_, rfl, (by simp)⟩
    obtain ⟨e, hd, hshort⟩ : ∃ e, decodeFrame (rd.held ++ c.rest) = .error e ∧
        ((rd.held ++ c.rest).length < total h → e = .short) := by
      rw [hdec]
      by_cases hl : (rd.held ++ c.rest).length < total h
      · exact ⟨_, if_pos hl, fun _ => rfl⟩
      · refine ⟨.crc, ?_, fun hx => absurd hx hl⟩
        rw [if_neg hl, if_pos fun hc => hg ⟨not_lt.mp hl, hc⟩]
    have hbad {res : Path} {pay : Bytes → Prop} {ref : Prop} (hr : Reads h rd₁ c₁ pay ref res) :
        ∃ s, res = .error s ∧
          (s = .read → decodeFrame (rd.held ++ c.rest) = .error .short) := by
      obtain ⟨s, hres, hread⟩ := hr.bad (hs ▸ hg)
      exact ⟨s, hres, fun hx => by rw [hd, hshort (hs ▸ hread hx)]⟩
    rw [refFrame, hd, hfseq]
    dsimp only
    cases hv : verdict env seen rd.fseq h with
    | refuse => exact ⟨_, rfl, (by simp)⟩
    | skip =>
      obtain ⟨hrel, hext⟩ := verdict_skip hv
      obtain ⟨s, he, hread⟩ := hbad (hreads none hrel fun _ hx => absurd (hx.symm.trans hext)
        (by simp))
      rw [he]
      exact ⟨s, rfl, hread⟩
    | take route =>
      obtain ⟨hrel, hext, hopen⟩ := verdict_take hv
      obtain ⟨s, he, hread⟩ := hbad (hreads route hrel fun hm _ => hopen hm)
      dsimp only
      rw [he]
      exact ⟨s, rfl, hread⟩

/-! ### The whole stream -/

/-- The reference: frames with consecutive numbers and right checksums, parsed from the whole
stream. It has the frames handed over, newest first, and the octets of the frames before the one it
stops at; `none` when the fuel is used up. -/
def refLoop (env : Env) : Nat → List Frame → Nat → UInt32 → Bytes → Option (List Frame × Nat)
  | 0, _, _, _, _ => none
  | fuel + 1, seen, pos, fseq, x =>
    match refFrame env seen fseq x with
    | .stop => some (seen, pos)
    | .skip n => refLoop env fuel seen (pos + n) (fseq + 1) (x.drop n)
    | .got f n =>
      if env.handle seen f then refLoop env fuel (f :: seen) (pos + n) (fseq + 1) (x.drop n)
      else some (f :: seen, pos)

lemma readLoop_agrees (env : Env) (stream : Bytes) (fuel : Nat) (seen : List Frame) (pos : Nat)
    (rd : Reader) (c : Conn) (hwf : Wf rd c) (hs : rd.held ++ c.rest = stream.drop pos)
    (hfuel : stream.length - pos < fuel) :
    ∃ o, readLoop env fuel seen pos rd c = some o ∧
      refLoop env fuel seen pos rd.fseq (stream.drop pos) = some (o.seen, o.pos) ∧
      (o.stop = .read → decodeFrame (stream.drop o.pos) = .error .short) := by
  induction fuel generalizing seen pos rd c with
  | zero => exact absurd hfuel (Nat.not_lt_zero _)
  | succ fuel ih =>
    have hagree := readFrame_agrees env seen hwf
    rw [hs] at hagree
    rw [readLoop, refLoop]
    -- the stream behind a frame, and the fuel that is left
    have hbehind {n : Nat} {rd' : Reader} {c' : Conn} (hb : Behind rd c n rd' c')
        (hpos : 0 < n) (hn : n ≤ (rd.held ++ c.rest).length) :
        rd'.held ++ c'.rest = stream.drop (pos + n) ∧ stream.length - (pos + n) < fuel := by
      refine ⟨by rw [hb.stream, hs, drop_drop], ?_⟩
      rw [hs, length_drop] at hn
      omega
    cases href : refFrame env seen rd.fseq (stream.drop pos) with
    | stop =>
      rw [href] at hagree
      obtain ⟨r, hr, hread⟩ := hagree
      rw [hr]
      exact ⟨_, rfl, rfl, fun hx => hs ▸ hread hx⟩
    | skip n =>
      rw [href] at hagree
      obtain ⟨rd', c', hr, hpos, hb, hn⟩ := hagree
      obtain ⟨hs', hfuel'⟩ := hbehind hb hpos hn
      rw [hr]
      dsimp only
      rw [drop_drop, ← hb.fseq]
      exact ih seen (pos + n) rd' c' hb.wf hs' hfuel'
    | got f n =>
      rw [href] at hagree
      obtain ⟨rd', c', hr, hlen, hb, hn⟩ := hagree
      obtain ⟨hs', hfuel'⟩ := hbehind hb (by
        rw [hlen]
        exact lt_of_lt_of_le (by decide : 0 < trailerLen) (Nat.le_add_left ..)) hn
      rw [hr]
      dsimp only
      rw [drop_drop, ← hb.fseq, ← hlen]
      split
      · exact ih (f :: seen) (pos + n) rd' c' hb.wf hs' hfuel'
      · exact ⟨_, rfl, rfl, nofun⟩

/-- **Reading is parsing.** For every stream of octets a conn delivers before its error, every way
its Reads cut it and every handler, the reader ends; the frames it handed over and the position it
stopped at are those of the reference, which does not see the cuts; and it reports a read error only
where the rest of the stream is not a complete frame. -/
theorem reading_is_parsing (env : Env) (stream : Bytes) (cuts : Nat → Nat × Bool) (fseq : UInt32) :
    ∃ o, readLoop env (stream.length + 1) [] 0 (.start fseq) ⟨stream, cuts, 0⟩ = some o ∧
      refLoop env (stream.length + 1) [] 0 fseq stream = some (o.seen, o.pos) ∧
      (o.stop = .read → decodeFrame (stream.drop o.pos) = .error .short) :=
  readLoop_agrees env stream _ [] 0 (.start fseq) ⟨stream, cuts, 0⟩ ⟨Nat.zero_le _, nofun⟩ rfl
    (Nat.lt_succ_self _)

end Rendr.Carrier.Read
