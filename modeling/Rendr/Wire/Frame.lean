import Rendr.Lib.Bytes

/-!
# Frames of wire format v2

The frame layer of the codec: type bytes with their flag, handle and length rules, the header,
the CRC32C trailer and the encoder and decoder of one frame.

    type u8 | flags u8 | len u24 | fseq u32 | handle u32 | payload[len] | crc32c u32

An encoder that panics on a programming error returns `none` here; the caller's memory it writes
into is the string it returns. Main results:

* `parseHeader_putHeader`, `putHeader_parseHeader` — headers round-trip both ways;
* `decodeFrame_appendFrame` — a frame decodes to itself whatever follows it;
* `appendFrame_decodeFrame` — encoding a decoded frame reproduces the consumed octets;
* `decodeFrame_short` — every strict initial part of a frame is short.
-/

open Rendr.Octets

namespace Rendr.Wire

open List

export Rendr.Octets (slice)

/-- Decoding errors. -/
inductive WireErr
  | short | trailing | magic | major | feature | malformed | crc | type | flags | handle
  | length | reserved | value | flowHeader
  deriving DecidableEq, Repr

/-! ### Sizes and limits -/

def prefaceLen : Nat := 40
def headerLen : Nat := 13
def trailerLen : Nat := 4
def frameOverhead : Nat := headerLen + trailerLen
def maxFramePayload : Nat := 1048576
def dataPrefixLen : Nat := 8
def openFixedLen : Nat := 32
def openAckFixedLen : Nat := 10
def joinLen : Nat := 25
def joinAckLen : Nat := 9
def ackLen : Nat := 16
def finLen : Nat := 8
def rstFixedLen : Nat := 5
def schedFixedLen : Nat := 29
def pingFixedLen : Nat := 20
def reasonLen : Nat := 1
def maxSchedIDs : Nat := 16
def maxMsg : Nat := 255
def maxMetadata : Nat := 65535
def maxPingPad : Nat := 65536 - pingFixedLen
def dgramPrefixLen : Nat := 8
def dgramOverhead : Nat := frameOverhead + dgramPrefixLen
def packLen : Nat := 20
def relHeadLen : Nat := 10
def relMaxPayload : Nat := relHeadLen + openAckFixedLen + maxMsg
def rackLen : Nat := 8
def relWindow : Nat := 8
def flowHeaderLen : Nat := 9
def flowVersion : UInt8 := 2
def minPacketPayload : Nat := 512
def maxPacketPayload : Nat := 65507
def minFrameBudget : Nat := minPacketPayload + dgramOverhead
def maxDatagram : Nat := 65507
def controlFloor : Nat := 300
def detachLen : Nat := 5
def downLen : Nat := 4

/-! ### Type bytes -/

def typeOpen : UInt8 := 0x01
def typeOpenAck : UInt8 := 0x02
def typeJoin : UInt8 := 0x03
def typeJoinAck : UInt8 := 0x04
def typeData : UInt8 := 0x10
def typeAck : UInt8 := 0x11
def typeFin : UInt8 := 0x12
def typeRst : UInt8 := 0x13
def typeSched : UInt8 := 0x14
def typeDgram : UInt8 := 0x20
def typePack : UInt8 := 0x21
def typePing : UInt8 := 0x30
def typePong : UInt8 := 0x31
def typeClose : UInt8 := 0x32
def typeGoAway : UInt8 := 0x33
def typeRel : UInt8 := 0x34
def typeRack : UInt8 := 0x35
def typeDetach : UInt8 := 0x36
def typeDown : UInt8 := 0x37

/-- `Type.Extension`: the ignorable range. -/
def extension (t : UInt8) : Bool := 0x80 ≤ t

/-- `Type.CarrierLevel`: the core types whose handle is 0. -/
def carrierLevel (t : UInt8) : Bool :=
  [typePing, typePong, typeClose, typeGoAway, typeRel, typeRack, typeDetach, typeDown].contains t

/-- `Type.Known`: the core types of the format. -/
def known (t : UInt8) : Bool :=
  [typeOpen, typeOpenAck, typeJoin, typeJoinAck, typeData, typeAck, typeFin, typeRst, typeSched,
    typePing, typePong, typeClose, typeGoAway, typeDgram, typePack, typeRel, typeRack, typeDetach,
    typeDown].contains t

/-- `AllowedFlags`: the flag bits defined for `t`; every bit of an extension. -/
def allowedFlags (t : UInt8) : UInt8 :=
  if extension t then 0xFF
  else if t = typeAck then 0x03
  else if t = typePack then 0x03
  else if t = typePing then 0x01
  else if t = typeSched then 0x03
  else 0

/-- `handleOK`: handle 0 exactly on the carrier-level types. -/
def handleOK (t : UInt8) (handle : UInt32) : Bool := carrierLevel t == (handle == 0)

/-- `PayloadBounds`: the inclusive payload length bounds of `t`, and whether `t` has any. -/
def payloadBounds (t : UInt8) : Nat × Nat × Bool :=
  if extension t then (0, maxFramePayload, true)
  else if t = typeOpen then (openFixedLen, openFixedLen + maxMetadata, true)
  else if t = typeOpenAck then (openAckFixedLen, openAckFixedLen + maxMsg, true)
  else if t = typeJoin then (joinLen, joinLen, true)
  else if t = typeJoinAck then (joinAckLen, joinAckLen, true)
  else if t = typeData then (dataPrefixLen + 1, maxFramePayload, true)
  else if t = typeAck then (ackLen, ackLen, true)
  else if t = typeFin then (finLen, finLen, true)
  else if t = typeRst then (rstFixedLen, rstFixedLen + maxMsg, true)
  else if t = typeSched then (schedFixedLen + 4, schedFixedLen + 4 * maxSchedIDs, true)
  else if t = typePing ∨ t = typePong then (pingFixedLen, pingFixedLen + maxPingPad, true)
  else if t = typeClose ∨ t = typeGoAway then (reasonLen, reasonLen, true)
  else if t = typeDgram then (dgramPrefixLen, maxFramePayload, true)
  else if t = typePack then (packLen, packLen, true)
  else if t = typeRel then (relHeadLen, maxFramePayload, true)
  else if t = typeRack then (rackLen, rackLen, true)
  else if t = typeDetach then (detachLen, detachLen, true)
  else if t = typeDown then (downLen, downLen, true)
  else (0, 0, false)

/-! ### CRC32C -/

/-- Eight steps of the reflected Castagnoli division: one entry of the table. -/
def crcShift : Nat → UInt32 → UInt32
  | 0, c => c
  | n + 1, c => crcShift n (if c &&& 1 = 0 then c >>> 1 else (c >>> 1) ^^^ 0x82F63B78)

/-- One octet into a running checksum. -/
def crcOctet (c : UInt32) (b : UInt8) : UInt32 :=
  crcShift 8 ((c ^^^ b.toUInt32) &&& 0xFF) ^^^ (c >>> 8)

/-- `CRCUpdate`: the checksum continued over `b`. -/
def crcUpdate (crc : UInt32) (b : Bytes) : UInt32 := ~~~ (b.foldl crcOctet (~~~ crc))

/-- `CRC`: the CRC32C of `b`. -/
def crc (b : Bytes) : UInt32 := crcUpdate 0 b

example : crc [0x31, 0x32, 0x33, 0x34, 0x35, 0x36, 0x37, 0x38, 0x39] = 0xE3069283 := by
  decide +kernel

/-! ### Headers -/

/-- A decoded frame header. -/
structure Header where
  type : UInt8
  flags : UInt8
  len : UInt32
  fseq : UInt32
  handle : UInt32
  deriving DecidableEq, Repr

/-- The three octets of a `u24` length. -/
def put24 (x : UInt32) : Bytes := putBE 3 x.toNat

/-- The `u24` length at `i`. -/
def get24 (b : Bytes) (i : Nat) : UInt32 := UInt32.ofNat (getBE (slice b i 3))

@[simp] lemma length_put24 (x : UInt32) : (put24 x).length = 3 := length_putBE ..

lemma get24_put24 {x : UInt32} (h : x.toNat < 2 ^ 24) (r : Bytes) : get24 (put24 x ++ r) 0 = x := by
  rw [get24, slice_append_left (length_put24 x), put24, getBE_putBE (by simpa using h)]
  exact UInt32.ofNat_toNat

@[simp] lemma get24_append {a r : Bytes} {i : Nat} (h : a.length ≤ i) :
    get24 (a ++ r) i = get24 r (i - a.length) := by rw [get24, slice_append_right h]; rfl

@[simp] lemma get24_cons_succ (b : UInt8) (r : Bytes) (i : Nat) (h : 1 ≤ i) :
    get24 (b :: r) i = get24 r (i - 1) := get24_append (a := [b]) h

variable {b : Bytes}

lemma put24_get24 {i : Nat} (h : i + 3 ≤ b.length) : put24 (get24 b i) = slice b i 3 := by
  have hlt : getBE (slice b i 3) < 256 ^ 3 := by
    simpa [length_slice h] using getBE_lt (slice b i 3)
  have heq := putBE_getBE (slice b i 3)
  rw [length_slice h] at heq
  rw [put24, get24, UInt32.toNat_ofNat', Nat.mod_eq_of_lt (by omega), heq]

/-- `PutHeader`; a length beyond the limit panics. -/
def putHeader (h : Header) : Option Bytes :=
  if maxFramePayload < h.len.toNat then none
  else some ([h.type] ++ [h.flags] ++ put24 h.len ++ put32 h.fseq ++ put32 h.handle)

/-- The checks of `ParseHeader` on the fields, in its order. -/
def checkHeader (h : Header) : Except WireErr Header :=
  if maxFramePayload < h.len.toNat then .error .length
  else if extension h.type then .ok h
  else if !known h.type then .error .type
  else if h.flags &&& ~~~ (allowedFlags h.type) ≠ 0 then .error .flags
  else if !handleOK h.type h.handle then .error .handle
  else if h.len.toNat < (payloadBounds h.type).1 ∨ (payloadBounds h.type).2.1 < h.len.toNat then
    .error .length
  else .ok h

/-- The five fields of the header at the front of `b`. -/
def headerFields (b : Bytes) : Header where
  type := get8 b 0
  flags := get8 b 1
  len := get24 b 2
  fseq := get32 b 5
  handle := get32 b 9

/-- `ParseHeader`. -/
def parseHeader (b : Bytes) : Except WireErr Header :=
  if b.length < headerLen then .error .short else checkHeader (headerFields b)

/-- **A header the parser admits.** -/
def Header.Admitted (h : Header) : Prop := checkHeader h = .ok h

instance (h : Header) : Decidable h.Admitted :=
  decidable_of_iff (checkHeader h matches .ok _) (by
    unfold Header.Admitted checkHeader
    split_ifs <;> simp)

lemma checkHeader_eq {h h' : Header} (he : checkHeader h = .ok h') : h' = h := by
  unfold checkHeader at he
  split_ifs at he <;> simp_all

variable {h : Header}

lemma Header.Admitted.len_le (ha : h.Admitted) : h.len.toNat ≤ maxFramePayload := by
  unfold Header.Admitted checkHeader at ha
  split_ifs at ha <;> omega

/-- The types a frame may start with: the first magic octet is none of them. -/
lemma Header.Admitted.type_ne (ha : h.Admitted) : h.type ≠ 0x52 := by
  intro ht
  unfold Header.Admitted checkHeader at ha
  rw [ht] at ha
  have h1 : extension 0x52 = false := by decide
  have h2 : known 0x52 = false := by decide
  simp only [h1, h2, Bool.not_false, if_true, Bool.false_eq_true, if_false] at ha
  split_ifs at ha

lemma length_putHeader (hb : putHeader h = some b) : b.length = headerLen := by
  unfold putHeader at hb
  split_ifs at hb
  cases hb
  simp [headerLen]

lemma headerFields_putHeader (hb : putHeader h = some b) (r : Bytes) :
    headerFields (b ++ r) = h := by
  unfold putHeader at hb
  split_ifs at hb with hlen
  cases hb
  have h24 : h.len.toNat < 2 ^ 24 := by unfold maxFramePayload at hlen; omega
  simp [headerFields, get24_put24 h24]

/-- **Headers round-trip**, whatever follows them. -/
lemma parseHeader_putHeader (ha : h.Admitted) :
    ∃ b, putHeader h = some b ∧ ∀ r, parseHeader (b ++ r) = .ok h := by
  have hlen := ha.len_le
  obtain ⟨b, hb⟩ : ∃ b, putHeader h = some b := ⟨_, if_neg (by omega)⟩
  refine ⟨b, hb, fun r => ?_⟩
  have hl := length_putHeader hb
  rw [parseHeader, if_neg (by rw [length_append]; omega), headerFields_putHeader hb]
  exact ha

/-- The header octets of a string are those of the header parsed from it. -/
lemma putHeader_parseHeader (hp : parseHeader b = .ok h) :
    h.Admitted ∧ putHeader h = some (b.take headerLen) ∧ headerLen ≤ b.length := by
  unfold parseHeader at hp
  split_ifs at hp with hlen
  have hl : 13 ≤ b.length := by unfold headerLen at hlen; omega
  obtain rfl := checkHeader_eq hp
  refine ⟨hp, ?_, by unfold headerLen; omega⟩
  rw [putHeader, if_neg (by have := Header.Admitted.len_le hp; omega)]
  simp only [headerFields]
  rw [get8_slice (by omega), get8_slice (by omega), put24_get24 (by omega), put32_get32 (by omega),
    put32_get32 (by omega), slice_join rfl, slice_join rfl, slice_join rfl, slice_join rfl]
  rfl

/-! ### Frames -/

/-- `AppendFrame`: the frame of `payload` behind `dst`; the length is the payload's own. -/
def appendFrame (dst : Bytes) (h : Header) (payload : Bytes) : Option Bytes :=
  if maxFramePayload < payload.length then none
  else
    (putHeader { h with len := UInt32.ofNat payload.length }).map fun head =>
      dst ++ (head ++ payload ++ put32 (crc (head ++ payload)))

/-- A decoded frame. -/
structure Frame where
  header : Header
  payload : Bytes
  deriving DecidableEq, Repr

/-- `DecodeFrame`: the frame at the front of `b` and the octets it takes. -/
def decodeFrame (b : Bytes) : Except WireErr (Frame × Nat) :=
  match parseHeader b with
  | .error e => .error e
  | .ok h =>
    let last := headerLen + h.len.toNat
    if b.length < last + trailerLen then .error .short
    else if crc (b.take last) ≠ get32 b last then .error .crc
    else .ok (⟨h, slice b headerLen h.len.toNat⟩, last + trailerLen)

/-- **A frame the decoder admits**: an admitted header whose length is the payload's. -/
structure Frame.Admitted (f : Frame) : Prop where
  header : f.header.Admitted
  len : f.header.len.toNat = f.payload.length

variable {f : Frame}

/-- The octets of an admitted frame. -/
lemma appendFrame_eq (hf : f.Admitted) :
    ∃ head, putHeader f.header = some head ∧ head.length = headerLen ∧
      appendFrame [] f.header f.payload =
        some (head ++ f.payload ++ put32 (crc (head ++ f.payload))) := by
  have hle := hf.header.len_le
  rw [hf.len] at hle
  have hh : ({ f.header with len := UInt32.ofNat f.payload.length } : Header) = f.header := by
    rw [← hf.len, UInt32.ofNat_toNat]
  obtain ⟨head, hb, -⟩ := parseHeader_putHeader hf.header
  refine ⟨head, hb, length_putHeader hb, ?_⟩
  rw [appendFrame, if_neg (by omega), hh, hb]
  rfl

/-- **A frame decodes to itself**, whatever follows it. -/
lemma decodeFrame_appendFrame (hf : f.Admitted) :
    ∃ b, appendFrame [] f.header f.payload = some b ∧
      b.length = headerLen + f.payload.length + trailerLen ∧
      ∀ rest, decodeFrame (b ++ rest) = .ok (f, b.length) := by
  obtain ⟨head, hh, hl, hb⟩ := appendFrame_eq hf
  have hlen : (head ++ f.payload ++ put32 (crc (head ++ f.payload))).length
      = headerLen + f.payload.length + trailerLen := by
    simp only [length_append, hl, length_put32, trailerLen]
  refine ⟨_, hb, hlen, fun rest => ?_⟩
  obtain ⟨head', hh', hp⟩ := parseHeader_putHeader hf.header
  obtain rfl : head = head' := Option.some.inj (hh ▸ hh')
  have hhp : (head ++ f.payload).length = headerLen + f.payload.length := by simp [hl]
  rw [decodeFrame, append_assoc, append_assoc, hp]
  simp only [hf.len]
  rw [if_neg (by simp only [length_append, hl, length_put32, trailerLen]; omega),
    ← append_assoc, take_left' hhp,
    get32_append (by omega), hhp, Nat.sub_self, get32_put32, if_neg (by simp)]
  have hs : slice (head ++ f.payload ++ (put32 (crc (head ++ f.payload)) ++ rest)) headerLen
      f.payload.length = f.payload := by
    rw [append_assoc, slice_append_right (by omega), hl, Nat.sub_self,
      slice_append_left rfl]
  rw [hs, hlen]

/-- **What was decoded was a frame**: encoding it again reproduces the octets it took. -/
lemma appendFrame_decodeFrame {n : Nat} (hd : decodeFrame b = .ok (f, n)) :
    f.Admitted ∧ n ≤ b.length ∧ n = headerLen + f.payload.length + trailerLen ∧
      appendFrame [] f.header f.payload = some (b.take n) := by
  unfold decodeFrame at hd
  split at hd
  · cases hd
  rename_i h hp
  simp only at hd
  split_ifs at hd with hshort hcrc
  rw [not_not] at hcrc
  cases hd
  obtain ⟨ha, hput, -⟩ := putHeader_parseHeader hp
  have hl : (slice b headerLen h.len.toNat).length = h.len.toNat :=
    length_slice (by unfold trailerLen at hshort; omega)
  have hf : Frame.Admitted ⟨h, slice b headerLen h.len.toNat⟩ := ⟨ha, hl.symm⟩
  refine ⟨hf, by omega, by rw [hl], ?_⟩
  obtain ⟨head, hh, -, hb⟩ := appendFrame_eq hf
  obtain rfl : b.take headerLen = head := Option.some.inj (hput ▸ hh)
  have hjoin : b.take headerLen ++ slice b headerLen h.len.toNat
      = b.take (headerLen + h.len.toNat) := by
    rw [slice, take_add]
  rw [hb]
  simp only [hjoin, hcrc]
  rw [put32_get32 (by unfold trailerLen at hshort; omega), slice, ← take_add]
  rfl

/-- **Every strict initial part of a frame is short.** -/
lemma decodeFrame_short (hf : f.Admitted) {b q r : Bytes}
    (hb : appendFrame [] f.header f.payload = some b) (hq : b = q ++ r) (hr : r ≠ []) :
    decodeFrame q = .error .short := by
  obtain ⟨b', hb', hlen, -⟩ := decodeFrame_appendFrame hf
  obtain rfl : b = b' := Option.some.inj (hb ▸ hb')
  have hrl : 0 < r.length := length_pos_iff.mpr hr
  have hql : q.length < b.length := by rw [hq, length_append]; omega
  by_cases hh : q.length < headerLen
  · rw [decodeFrame, parseHeader, if_pos hh]
  obtain ⟨head, hput, hl, hb2⟩ := appendFrame_eq hf
  obtain ⟨head', hput', hp⟩ := parseHeader_putHeader hf.header
  obtain rfl : head = head' := Option.some.inj (hput ▸ hput')
  -- the header octets are all there, so the cut is behind them
  obtain ⟨q', rfl⟩ : ∃ q', q = head ++ q' := by
    have hpre : head <+: q ++ r := by
      have hbe : b = head ++ f.payload ++ put32 (crc (head ++ f.payload)) :=
        Option.some.inj (hb ▸ hb2)
      rw [← hq, hbe, append_assoc]
      exact prefix_append ..
    have hqp : q <+: q ++ r := prefix_append ..
    obtain ⟨q', hq'⟩ := prefix_of_prefix_length_le hpre hqp (by omega)
    exact ⟨q', hq'.symm⟩
  rw [decodeFrame, hp]
  simp only [hf.len]
  rw [if_pos (by omega)]

/-! ### Frame streams -/

/-- The octets of a list of frames, one after the other. -/
def encodeAll : List Frame → Option Bytes
  | [] => some []
  | f :: fs => do
    let rest ← encodeAll fs
    let b ← appendFrame [] f.header f.payload
    pure (b ++ rest)

/-- **A list of frames is recovered from its concatenation**: two lists of admitted frames with the
same octets are the same list. -/
lemma encodeAll_injective {fs gs : List Frame} (hf : ∀ f ∈ fs, f.Admitted)
    (hg : ∀ f ∈ gs, f.Admitted) (hfb : encodeAll fs = some b) (hgb : encodeAll gs = some b) :
    fs = gs := by
  induction fs generalizing gs b with
  | nil =>
    cases gs with
    | nil => rfl
    | cons g gs =>
      obtain ⟨bg, hbg, hlen, -⟩ := decodeFrame_appendFrame (hg g (by simp))
      cases hfb
      cases hrest : encodeAll gs with
      | none => simp [encodeAll, hrest] at hgb
      | some rest =>
        simp only [encodeAll, hrest, hbg, Option.bind_eq_bind, Option.bind_some,
          Option.pure_def, Option.some.injEq, append_eq_nil_iff] at hgb
        rw [hgb.1] at hlen
        simp [headerLen] at hlen
        omega
  | cons f fs ih =>
    obtain ⟨bf, hbf, hlenf, hdf⟩ := decodeFrame_appendFrame (hf f (by simp))
    cases hrf : encodeAll fs with
    | none => simp [encodeAll, hrf] at hfb
    | some restf =>
      simp only [encodeAll, hrf, hbf, Option.bind_eq_bind, Option.bind_some, Option.pure_def,
        Option.some.injEq] at hfb
      cases gs with
      | nil =>
        cases hgb
        have := congrArg List.length hfb
        simp [hlenf, headerLen] at this
      | cons g gs =>
        obtain ⟨bg, hbg, hleng, hdg⟩ := decodeFrame_appendFrame (hg g (by simp))
        cases hrg : encodeAll gs with
        | none => simp [encodeAll, hrg] at hgb
        | some restg =>
          simp only [encodeAll, hrg, hbg, Option.bind_eq_bind, Option.bind_some, Option.pure_def,
            Option.some.injEq] at hgb
          -- both lists start with the one frame the decoder finds at the front
          have heq := hdf restf
          rw [hfb, ← hgb, hdg restg] at heq
          obtain ⟨rfl, hn⟩ := Prod.mk.inj (Except.ok.inj heq)
          obtain rfl : bf = bg := Option.some.inj (hbf ▸ hbg)
          have hrest : restf = restg := append_cancel_left (hfb.trans hgb.symm)
          rw [ih (fun x hx => hf x (by simp [hx])) (fun x hx => hg x (by simp [hx])) hrf
            (hrest ▸ hrg)]

end Rendr.Wire
