import Rendr.Wire.Payload

/-!
# Datagram payloads, reliable control and mux frames

The payloads of packet sessions (DGRAM, PACK), of the reliable control sublayer of datagram
carriers (REL, RACK), the raw-UDP flow header, and the frames that end one handle of a trunk
(DETACH) or report another trunk's death (DOWN). Each has its `IsCodec` theorem; `parseRel_put` is
the one the reliable sublayer's proofs use.
-/

open Rendr.Octets

namespace Rendr.Wire

/-! ### DGRAM, PACK -/

/-- A DGRAM payload: the sequence number and the datagram. -/
structure Dgram where
  seq : UInt64
  data : Bytes
  deriving DecidableEq, Repr

/-- `PutDgramSeq`, with the datagram the batch references behind it. -/
def putDgram (d : Dgram) : Bytes := put64 d.seq ++ d.data

def parseDgram (p : Bytes) : Except WireErr Dgram :=
  if p.length < dgramPrefixLen then .error .short
  else .ok ⟨get64 p 0, p.drop dgramPrefixLen⟩

lemma dgram_codec : IsCodec (fun d => some (putDgram d)) parseDgram fun _ => True where
  parse_put d _ := by
    refine ⟨_, rfl, ?_⟩
    simp [parseDgram, putDgram, dgramPrefixLen]
  put_parse b d h := by
    unfold parseDgram at h
    split_ifs at h with hshort
    unfold dgramPrefixLen at hshort
    cases h
    refine ⟨trivial, congrArg some ?_⟩
    simp only [putDgram, dgramPrefixLen]
    rw [put64_get64 (by omega), slice_join_drop rfl, List.drop_zero]

/-- The PACK payload. -/
structure Pack where
  highestSeq : UInt64
  received : UInt64
  epochEcho : UInt32
  deriving DecidableEq, Repr

/-- `PutPack`: writes highest 0 when nothing was received, whatever `p` holds. -/
def putPack (p : Pack) : Bytes :=
  put64 (if p.received = 0 then 0 else p.highestSeq) ++ put64 p.received ++ put32 p.epochEcho

def parsePack (p : Bytes) : Except WireErr Pack :=
  match exactTail p.length packLen with
  | some e => .error e
  | none =>
    let pk : Pack := ⟨get64 p 0, get64 p 8, get32 p 16⟩
    if pk.received = 0 ∧ pk.highestSeq ≠ 0 then .error .reserved else .ok pk

def Pack.Canonical (p : Pack) : Prop := p.received = 0 → p.highestSeq = 0

lemma Pack.Canonical.field {p : Pack} (hp : p.Canonical) :
    (if p.received = 0 then 0 else p.highestSeq) = p.highestSeq := by
  split_ifs with h
  · exact (hp h).symm
  · rfl

lemma pack_codec : IsCodec (fun p => some (putPack p)) parsePack Pack.Canonical where
  parse_put p hp := by
    refine ⟨_, rfl, ?_⟩
    rw [putPack, hp.field]
    simp [parsePack, packLen]
    exact hp
  put_parse b p h := by
    unfold parsePack at h
    split at h
    · cases h
    rename_i hl
    have hl : b.length = 20 := exactTail_none.mp hl
    simp only at h
    split_ifs at h with hres
    cases h
    have hc : Pack.Canonical ⟨get64 b 0, get64 b 8, get32 b 16⟩ :=
      fun h0 => by by_contra hx; exact hres ⟨h0, hx⟩
    refine ⟨hc, congrArg some ?_⟩
    rw [putPack, hc.field, put64_get64 (by omega), put64_get64 (by omega), put32_get32 (by omega),
      slice_join rfl, slice_join rfl, slice_all hl]

/-! ### REL, RACK -/

/-- `Wrappable`: the types a REL may carry. -/
def wrappable (t : UInt8) : Bool :=
  [typeOpen, typeOpenAck, typeJoin, typeJoinAck, typeFin, typeRst, typeSched, typeClose,
    typeGoAway, typePack, typeDetach, typeDown].contains t

/-- The fixed part of a REL payload. -/
structure RelHead where
  cseq : UInt32
  type : UInt8
  flags : UInt8
  handle : UInt32
  deriving DecidableEq, Repr

/-- A REL payload: the head and the inner payload behind it. -/
structure Rel where
  head : RelHead
  inner : Bytes
  deriving DecidableEq, Repr

def putRelHead (h : RelHead) : Bytes := put32 h.cseq ++ [h.type] ++ [h.flags] ++ put32 h.handle

/-- `PutRelHead`, with the inner payload behind it. -/
def putRel (r : Rel) : Bytes := putRelHead r.head ++ r.inner

/-- The checks of `ParseRel` on the head and the inner length, in its order. -/
def checkRel (r : Rel) : Option WireErr :=
  if !wrappable r.head.type then some .type
  else if r.head.flags &&& ~~~ (allowedFlags r.head.type) ≠ 0 then some .flags
  else if !handleOK r.head.type r.head.handle then some .handle
  else if r.inner.length < (payloadBounds r.head.type).1 ∨
      (payloadBounds r.head.type).2.1 < r.inner.length then some .length
  else none

/-- The fields of a REL payload. -/
def relFields (p : Bytes) : Rel where
  head := ⟨get32 p 0, get8 p 4, get8 p 5, get32 p 6⟩
  inner := p.drop relHeadLen

def parseRel (p : Bytes) : Except WireErr Rel :=
  if p.length < relHeadLen then .error .short
  else
    match checkRel (relFields p) with
    | some e => .error e
    | none => .ok (relFields p)

/-- The REL payloads the parser admits. -/
def Rel.Canonical (r : Rel) : Prop := checkRel r = none

instance (r : Rel) : Decidable r.Canonical := inferInstanceAs (Decidable (_ = _))

@[simp] lemma length_putRelHead (h : RelHead) : (putRelHead h).length = relHeadLen := by
  simp [putRelHead, relHeadLen]

lemma parseRel_put {r : Rel} (hr : r.Canonical) : parseRel (putRel r) = .ok r := by
  have hf : relFields (putRel r) = r := by
    simp [relFields, putRel, putRelHead, relHeadLen]
  rw [parseRel, if_neg (by simp [putRel]), hf, hr]

lemma rel_codec : IsCodec (fun r => some (putRel r)) parseRel Rel.Canonical where
  parse_put r hr := ⟨_, rfl, parseRel_put hr⟩
  put_parse b r h := by
    unfold parseRel at h
    split_ifs at h with hshort
    split at h
    · cases h
    rename_i hc
    cases h
    unfold relHeadLen at hshort
    refine ⟨hc, congrArg some ?_⟩
    simp only [putRel, putRelHead, relFields, relHeadLen]
    rw [put32_get32 (by omega), get8_slice (by omega), get8_slice (by omega),
      put32_get32 (by omega), slice_join rfl, slice_join rfl, slice_join rfl, slice_join_drop rfl,
      List.drop_zero]

/-- The RACK payload. -/
structure Rack where
  cumAck : UInt32
  sack : UInt32
  deriving DecidableEq, Repr

/-- The defined sack bits. -/
def rackSackMask : UInt32 := 0x7F

def putRack (r : Rack) : Bytes := put32 r.cumAck ++ put32 r.sack

def parseRack (p : Bytes) : Except WireErr Rack :=
  match exactTail p.length rackLen with
  | some e => .error e
  | none =>
    let r : Rack := ⟨get32 p 0, get32 p 4⟩
    if r.sack &&& ~~~ rackSackMask ≠ 0 then .error .reserved else .ok r

def Rack.Canonical (r : Rack) : Prop := r.sack &&& ~~~ rackSackMask = 0

lemma rack_codec : IsCodec (fun r => some (putRack r)) parseRack Rack.Canonical where
  parse_put r hr := by
    refine ⟨_, rfl, ?_⟩
    have hr' : r.sack &&& ~~~ rackSackMask = 0 := hr
    simp [parseRack, putRack, rackLen, hr']
  put_parse b r h := by
    unfold parseRack at h
    split at h
    · cases h
    rename_i hl
    have hl : b.length = 8 := exactTail_none.mp hl
    simp only at h
    split_ifs at h with hres
    cases h
    refine ⟨not_not.mp hres, congrArg some ?_⟩
    rw [putRack, put32_get32 (by omega), put32_get32 (by omega), slice_join rfl, slice_all hl]

/-! ### DETACH, DOWN -/

def detachEnded : UInt8 := 1
def detachRetired : UInt8 := 2

/-- The DETACH payload. -/
structure Detach where
  handle : UInt32
  reason : UInt8
  deriving DecidableEq, Repr

def putDetach (d : Detach) : Bytes := put32 d.handle ++ [d.reason]

def parseDetach (p : Bytes) : Except WireErr Detach :=
  match exactTail p.length detachLen with
  | some e => .error e
  | none =>
    let d : Detach := ⟨get32 p 0, get8 p 4⟩
    if d.handle = 0 ∨ d.reason < detachEnded ∨ detachRetired < d.reason then .error .value
    else .ok d

def Detach.Canonical (d : Detach) : Prop :=
  ¬ (d.handle = 0 ∨ d.reason < detachEnded ∨ detachRetired < d.reason)

lemma detach_codec : IsCodec (fun d => some (putDetach d)) parseDetach Detach.Canonical where
  parse_put d hd := by
    refine ⟨_, rfl, ?_⟩
    have hl : exactTail (putDetach d).length detachLen = none := by
      simp [putDetach, detachLen]
    have hh : get32 (putDetach d) 0 = d.handle := by simp [putDetach]
    have hr : get8 (putDetach d) 4 = d.reason := by simp [putDetach]
    rw [parseDetach, hl]
    simp only [hh, hr]
    exact if_neg hd
  put_parse b d h := by
    unfold parseDetach at h
    split at h
    · cases h
    rename_i hl
    have hl : b.length = 5 := exactTail_none.mp hl
    simp only at h
    split_ifs at h with hval
    cases h
    refine ⟨hval, congrArg some ?_⟩
    rw [putDetach, put32_get32 (by omega), get8_slice (by omega), slice_join rfl, slice_all hl]

def putDown (carrierID : UInt32) : Bytes := put32 carrierID

def parseDown (p : Bytes) : Except WireErr UInt32 :=
  match exactTail p.length downLen with
  | some e => .error e
  | none => if get32 p 0 = 0 then .error .value else .ok (get32 p 0)

lemma down_codec : IsCodec (fun id => some (putDown id)) parseDown fun id => id ≠ 0 where
  parse_put id hid := by
    refine ⟨_, rfl, ?_⟩
    simp [parseDown, putDown, downLen, hid]
  put_parse b id h := by
    unfold parseDown at h
    split at h
    · cases h
    rename_i hl
    have hl : b.length = 4 := exactTail_none.mp hl
    split_ifs at h with hid
    cases h
    exact ⟨hid, congrArg some (by rw [putDown, put32_get32 (by omega), slice_all hl])⟩

/-! ### The raw-UDP flow header -/

/-- A raw-UDP datagram: the flow and the rendr octets behind the header. -/
structure Flow where
  flow : UInt64
  rest : Bytes
  deriving DecidableEq, Repr

/-- `PutFlowHeader`, with the rendr octets behind it; flow 0 panics. -/
def putFlow (f : Flow) : Option Bytes :=
  if f.flow = 0 then none else some ([flowVersion] ++ put64 f.flow ++ f.rest)

def parseFlowHeader (d : Bytes) : Except WireErr Flow :=
  if d.length < flowHeaderLen ∨ get8 d 0 ≠ flowVersion then .error .flowHeader
  else if get64 d 1 = 0 then .error .flowHeader
  else .ok ⟨get64 d 1, d.drop flowHeaderLen⟩

lemma flow_codec : IsCodec putFlow parseFlowHeader fun f => f.flow ≠ 0 where
  parse_put f hf := by
    refine ⟨_, if_neg hf, ?_⟩
    simp [parseFlowHeader, flowHeaderLen, hf]
  put_parse b f h := by
    unfold parseFlowHeader at h
    split_ifs at h with hhead hzero
    cases h
    rw [not_or, not_not] at hhead
    obtain ⟨hlen, hver⟩ := hhead
    unfold flowHeaderLen at hlen
    refine ⟨hzero, ?_⟩
    rw [putFlow, if_neg hzero]
    refine congrArg some ?_
    simp only [flowHeaderLen]
    rw [← hver, get8_slice (by omega), put64_get64 (by omega), slice_join rfl, slice_join_drop rfl,
      List.drop_zero]

end Rendr.Wire
