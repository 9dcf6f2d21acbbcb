import Rendr.Wire.Dgram

/-!
# Prefaces, and the codec as a whole

The 40-octet PREFACE and PREFACE_ACK that open the two directions of a carrier, and the result the
package promises: every encoding is accepted by exactly one decoder and decodes to the value it
was made from (`wire_codec_bijective`).
-/

open Rendr.Octets

namespace Rendr.Wire

def magic : Bytes := [0x52, 0x4E, 0x44, 0x32]
def major : UInt8 := 2
def roleDialer : UInt8 := 1
def rolePassive : UInt8 := 2
def knownRequired : UInt32 := 0
def prefaceCapacity : UInt8 := 4

/-- A dialer's PREFACE. -/
structure Preface where
  minor : UInt8
  kind : UInt8
  req : UInt32
  opt : UInt32
  instance' : Fin 16 → UInt8
  carrierID : UInt32
  deriving DecidableEq

/-- A passive's PREFACE_ACK. -/
structure PrefaceAck where
  minor : UInt8
  status : UInt8
  req : UInt32
  opt : UInt32
  instance' : Fin 16 → UInt8
  carrierID : UInt32
  deriving DecidableEq

/-- The layout both share, without the checksum; octet 6 is the kind or the status. -/
def prefaceBody (minor b6 role : UInt8) (req opt : UInt32) (inst : Fin 16 → UInt8) (id : UInt32) :
    Bytes :=
  magic ++ [major] ++ [minor] ++ [b6] ++ [role] ++ put32 req ++ put32 opt ++ putBlock inst ++
    put32 id

/-- `putPreface`. -/
def putPrefaceOf (minor b6 role : UInt8) (req opt : UInt32) (inst : Fin 16 → UInt8)
    (id : UInt32) : Bytes :=
  let body := prefaceBody minor b6 role req opt inst id
  body ++ put32 (crc body)

def putPreface (p : Preface) : Bytes :=
  putPrefaceOf p.minor p.kind roleDialer p.req p.opt p.instance' p.carrierID

def putPrefaceAck (a : PrefaceAck) : Bytes :=
  putPrefaceOf a.minor a.status rolePassive a.req a.opt a.instance' a.carrierID

/-- `checkPreface`: the checks that do not depend on octet 6. -/
def checkPreface (b : Bytes) (role : UInt8) : Option WireErr :=
  if b.length < prefaceLen then some .short
  else if prefaceLen < b.length then some .trailing
  else if slice b 0 4 ≠ magic then some .magic
  else if crc (b.take 36) ≠ get32 b 36 then some .crc
  else if get8 b 4 ≠ major then some .major
  else if get8 b 7 ≠ role then some .malformed
  else none

/-- `ParsePreface`; only the feature error comes with the decoded value. -/
def parsePreface (b : Bytes) : Except (WireErr × Option Preface) Preface :=
  match checkPreface b roleDialer with
  | some e => .error (e, none)
  | none =>
    let p : Preface := ⟨get8 b 5, get8 b 6, get32 b 8, get32 b 12, getBlock 16 b 16, get32 b 32⟩
    if p.kind ≠ kindStream ∧ p.kind ≠ kindDatagram then .error (.malformed, none)
    else if (p.instance' = fun _ => 0) ∨ p.carrierID = 0 then .error (.malformed, none)
    else if p.req &&& ~~~ knownRequired ≠ 0 then .error (.feature, some p)
    else .ok p

/-- `ParsePrefaceAck`. -/
def parsePrefaceAck (b : Bytes) : Except (WireErr × Option PrefaceAck) PrefaceAck :=
  match checkPreface b rolePassive with
  | some e => .error (e, none)
  | none =>
    let a : PrefaceAck := ⟨get8 b 5, get8 b 6, get32 b 8, get32 b 12, getBlock 16 b 16, get32 b 32⟩
    if prefaceCapacity < a.status then .error (.malformed, none)
    else if (a.instance' = fun _ => 0) ∨ a.carrierID = 0 then .error (.malformed, none)
    else if a.req &&& ~~~ knownRequired ≠ 0 then .error (.feature, some a)
    else .ok a

structure Preface.Canonical (p : Preface) : Prop where
  kind : ¬ (p.kind ≠ kindStream ∧ p.kind ≠ kindDatagram)
  ids : ¬ ((p.instance' = fun _ => 0) ∨ p.carrierID = 0)
  req : p.req &&& ~~~ knownRequired = 0

structure PrefaceAck.Canonical (a : PrefaceAck) : Prop where
  status : ¬ prefaceCapacity < a.status
  ids : ¬ ((a.instance' = fun _ => 0) ∨ a.carrierID = 0)
  req : a.req &&& ~~~ knownRequired = 0

/-! ### The shared layout -/

variable {b : Bytes}

section Layout

variable {minor b6 role : UInt8} {req opt : UInt32} {inst : Fin 16 → UInt8} {id : UInt32}

@[simp] lemma length_prefaceBody : (prefaceBody minor b6 role req opt inst id).length = 36 := by
  simp [prefaceBody, magic]

lemma checkPreface_put :
    checkPreface (putPrefaceOf minor b6 role req opt inst id) role = none := by
  have hlen : (putPrefaceOf minor b6 role req opt inst id).length = prefaceLen := by
    simp [putPrefaceOf, prefaceLen]
  have htake : (putPrefaceOf minor b6 role req opt inst id).take 36
      = prefaceBody minor b6 role req opt inst id := List.take_left' length_prefaceBody
  have hcrc : get32 (putPrefaceOf minor b6 role req opt inst id) 36
      = crc (prefaceBody minor b6 role req opt inst id) := by
    rw [putPrefaceOf, get32_append (by simp)]
    simp
  have hmagic : slice (putPrefaceOf minor b6 role req opt inst id) 0 4 = magic := rfl
  have hmajor : get8 (putPrefaceOf minor b6 role req opt inst id) 4 = major := rfl
  have hrole : get8 (putPrefaceOf minor b6 role req opt inst id) 7 = role := rfl
  rw [checkPreface, hlen, htake, hcrc, hmagic, hmajor, hrole]
  simp

lemma prefaceFields_put :
    let b := putPrefaceOf minor b6 role req opt inst id
    get8 b 5 = minor ∧ get8 b 6 = b6 ∧ get32 b 8 = req ∧ get32 b 12 = opt ∧
      getBlock 16 b 16 = inst ∧ get32 b 32 = id := by
  simp [putPrefaceOf, prefaceBody, magic]

/-- What the shared checks accept is the layout of its own fields. -/
lemma putPrefaceOf_check (h : checkPreface b role = none) :
    putPrefaceOf (get8 b 5) (get8 b 6) role (get32 b 8) (get32 b 12) (getBlock 16 b 16)
      (get32 b 32) = b := by
  unfold checkPreface at h
  split_ifs at h with hshort hlong hmagic hcrc hmajor hrole
  rw [not_not] at hmagic hcrc hmajor hrole
  unfold prefaceLen at hshort hlong
  have hbody : prefaceBody (get8 b 5) (get8 b 6) role (get32 b 8) (get32 b 12) (getBlock 16 b 16)
      (get32 b 32) = b.take 36 := by
    rw [prefaceBody, ← hmagic, ← hmajor, ← hrole, get8_slice (by omega), get8_slice (by omega),
      get8_slice (by omega), get8_slice (by omega), put32_get32 (by omega), put32_get32 (by omega),
      putBlock_getBlock (by omega), put32_get32 (by omega), slice_join rfl, slice_join rfl,
      slice_join rfl, slice_join rfl, slice_join rfl, slice_join rfl, slice_join rfl,
      slice_join rfl]
    rfl
  rw [putPrefaceOf]
  simp only [hbody, hcrc]
  rw [put32_get32 (by omega), slice, ← List.take_add, List.take_of_length_le (by omega)]

lemma checkPreface_role {r : UInt8} (h : checkPreface b role = none)
    (h' : checkPreface b r = none) : role = r := by
  unfold checkPreface at h h'
  split_ifs at h with h1 h2 h3 h4 h5 h6
  rw [if_neg h1, if_neg h2, if_neg h3, if_neg h4, if_neg h5] at h'
  split_ifs at h' with h6'
  rw [not_not] at h6 h6'
  exact h6.symm.trans h6'

/-- A preface starts with an octet no frame type is. -/
lemma checkPreface_first (h : checkPreface b role = none) : get8 b 0 = 0x52 := by
  have hb := putPrefaceOf_check h
  rw [← hb]
  rfl

end Layout

lemma preface_codec :
    IsCodec (fun p => some (putPreface p)) parsePreface Preface.Canonical where
  parse_put p hp := by
    refine ⟨_, rfl, ?_⟩
    obtain ⟨h1, h2, h3, h4, h5, h6⟩ := @prefaceFields_put p.minor p.kind roleDialer p.req p.opt
      p.instance' p.carrierID
    rw [parsePreface, putPreface, checkPreface_put]
    simp only [h1, h2, h3, h4, h5, h6]
    rw [if_neg hp.kind, if_neg hp.ids, if_neg (not_not.mpr hp.req)]
  put_parse b p h := by
    unfold parsePreface at h
    split at h
    · cases h
    rename_i hc
    simp only at h
    split_ifs at h with hk hi hr
    cases h
    exact ⟨⟨hk, hi, not_not.mp hr⟩, congrArg some (putPrefaceOf_check hc)⟩

lemma prefaceAck_codec :
    IsCodec (fun a => some (putPrefaceAck a)) parsePrefaceAck PrefaceAck.Canonical where
  parse_put a ha := by
    refine ⟨_, rfl, ?_⟩
    obtain ⟨h1, h2, h3, h4, h5, h6⟩ := @prefaceFields_put a.minor a.status rolePassive a.req a.opt
      a.instance' a.carrierID
    rw [parsePrefaceAck, putPrefaceAck, checkPreface_put]
    simp only [h1, h2, h3, h4, h5, h6]
    rw [if_neg ha.status, if_neg ha.ids, if_neg (not_not.mpr ha.req)]
  put_parse b a h := by
    unfold parsePrefaceAck at h
    split at h
    · cases h
    rename_i hc
    simp only at h
    split_ifs at h with hs hi hr
    cases h
    exact ⟨⟨hs, hi, not_not.mp hr⟩, congrArg some (putPrefaceOf_check hc)⟩

/-! ### Which decoder accepts a string -/

lemma parsePreface_check {p : Preface} (h : parsePreface b = .ok p) :
    checkPreface b roleDialer = none := by
  unfold parsePreface at h
  split at h
  · cases h
  · assumption

lemma parsePrefaceAck_check {a : PrefaceAck} (h : parsePrefaceAck b = .ok a) :
    checkPreface b rolePassive = none := by
  unfold parsePrefaceAck at h
  split at h
  · cases h
  · assumption

/-- **A frame is no preface.** -/
lemma decodeFrame_not_preface {f : Frame} {n : Nat} {role : UInt8}
    (hd : decodeFrame b = .ok (f, n)) : checkPreface b role ≠ none := by
  intro hc
  have hfirst := checkPreface_first hc
  unfold decodeFrame at hd
  cases hp : parseHeader b with
  | error e => rw [hp] at hd; cases hd
  | ok h =>
    obtain ⟨ha, -, -⟩ := putHeader_parseHeader hp
    unfold parseHeader at hp
    split_ifs at hp
    have hh := checkHeader_eq hp
    exact ha.type_ne (by rw [hh]; exact hfirst)

theorem wire_codec_bijective :
    (∀ maxMeta, IsCodec putOpen (parseOpen maxMeta) (Open.Canonical maxMeta)) ∧
    IsCodec putOpenAck parseOpenAck OpenAck.Canonical ∧
    IsCodec (fun j => some (putJoin j)) parseJoin Join.Canonical ∧
    IsCodec (fun a => some (putJoinAck a)) parseJoinAck JoinAck.Canonical ∧
    IsCodec (fun x => some (putJoinAckMux x)) parseJoinAckMux JoinAckMux.Canonical ∧
    IsCodec (fun d => some (putData d)) parseData Data.Canonical ∧
    IsCodec (fun a => some (putAck a)) parseAck (fun _ => True) ∧
    IsCodec (fun off => some (putFin off)) parseFin (fun _ => True) ∧
    IsCodec putRst parseRst (fun r => r.msg.length ≤ maxMsg) ∧
    IsCodec putSched parseSched Sched.Canonical ∧
    IsCodec putPing parsePing (fun p => p.pad ≤ maxPingPad) ∧
    IsCodec (fun r => some (putReason r)) parseClose
      (fun r => r = closeRetire ∨ r = closeCapacity) ∧
    IsCodec (fun r => some (putReason r)) parseGoAway (fun r => r = goAwayShutdown) ∧
    IsCodec (fun d => some (putDgram d)) parseDgram (fun _ => True) ∧
    IsCodec (fun p => some (putPack p)) parsePack Pack.Canonical ∧
    IsCodec (fun r => some (putRel r)) parseRel Rel.Canonical ∧
    IsCodec (fun r => some (putRack r)) parseRack Rack.Canonical ∧
    IsCodec (fun d => some (putDetach d)) parseDetach Detach.Canonical ∧
    IsCodec (fun id => some (putDown id)) parseDown (fun id => id ≠ 0) ∧
    IsCodec putFlow parseFlowHeader (fun f => f.flow ≠ 0) ∧
    IsCodec (fun p => some (putPreface p)) parsePreface Preface.Canonical ∧
    IsCodec (fun a => some (putPrefaceAck a)) parsePrefaceAck PrefaceAck.Canonical ∧
    -- frames decode to themselves whatever follows, and back
    (∀ f : Frame, f.Admitted → ∃ b, appendFrame [] f.header f.payload = some b ∧
      b.length = headerLen + f.payload.length + trailerLen ∧
      (∀ rest, decodeFrame (b ++ rest) = .ok (f, b.length)) ∧
      ∀ q r, b = q ++ r → r ≠ [] → decodeFrame q = .error .short) ∧
    (∀ b f n, decodeFrame b = .ok (f, n) →
      f.Admitted ∧ n ≤ b.length ∧ appendFrame [] f.header f.payload = some (b.take n)) ∧
    (∀ fs gs b, (∀ f ∈ fs, f.Admitted) → (∀ f ∈ gs, f.Admitted) → encodeAll fs = some b →
      encodeAll gs = some b → fs = gs) ∧
    -- no string is accepted twice
    (∀ b f n, decodeFrame b = .ok (f, n) →
      (∀ p, parsePreface b ≠ .ok p) ∧ ∀ a, parsePrefaceAck b ≠ .ok a) ∧
    ∀ b p a, parsePreface b = .ok p → parsePrefaceAck b ≠ .ok a := by
  refine ⟨open_codec, openAck_codec, join_codec, joinAck_codec, joinAckMux_codec, data_codec,
    ack_codec, fin_codec, rst_codec, sched_codec, ping_codec, close_codec, goAway_codec,
    dgram_codec, pack_codec, rel_codec, rack_codec, detach_codec, down_codec, flow_codec,
    preface_codec, prefaceAck_codec, ?_, ?_, ?_, ?_, ?_⟩
  · intro f hf
    obtain ⟨b, hb, hlen, hd⟩ := decodeFrame_appendFrame hf
    exact ⟨b, hb, hlen, hd, fun q r hq hr => decodeFrame_short hf hb hq hr⟩
  · intro b f n hd
    obtain ⟨hf, hn, -, ha⟩ := appendFrame_decodeFrame hd
    exact ⟨hf, hn, ha⟩
  · intro fs gs b hf hg hfb hgb
    exact encodeAll_injective hf hg hfb hgb
  · intro b f n hd
    exact ⟨fun p hp => decodeFrame_not_preface hd (parsePreface_check hp),
      fun a ha => decodeFrame_not_preface hd (parsePrefaceAck_check ha)⟩
  · intro b p a hp ha
    have hrole := checkPreface_role (parsePreface_check hp) (parsePrefaceAck_check ha)
    exact absurd hrole (by decide)

end Rendr.Wire
