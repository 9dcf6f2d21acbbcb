import Rendr.Wire.Frame

/-!
# Payloads of wire format v2

Every payload of the format with its encoder, its decoder and the canonical form its decoder
enforces. Decoders check in the order of the source, so an input with several defects is answered
with the same error. Each payload comes with one theorem, an `IsCodec`: decoding what was encoded
gives the value back, and encoding what was decoded gives the octets back, so the accepted strings
and the canonical values correspond one to one.
-/

open Rendr.Octets

namespace Rendr.Wire

open List

/-- **A bijective codec**: the canonical values and the accepted strings correspond one to one
through `put` and `parse`. A `put` that panics is `none`. -/
structure IsCodec {α ε : Type} (put : α → Option Bytes) (parse : Bytes → Except ε α)
    (Canonical : α → Prop) : Prop where
  /-- A canonical value is encoded, and decodes to itself. -/
  parse_put : ∀ x, Canonical x → ∃ b, put x = some b ∧ parse b = .ok x
  /-- An accepted string decodes to a canonical value whose encoding it is. -/
  put_parse : ∀ b x, parse b = .ok x → Canonical x ∧ put x = some b

/-- `exactTail`: the octets present against those required. -/
def exactTail (have' want : Nat) : Option WireErr :=
  if have' < want then some .short else if want < have' then some .trailing else none

lemma exactTail_none {n m : Nat} : exactTail n m = none ↔ n = m := by
  unfold exactTail
  split_ifs <;> simp <;> omega

@[simp] lemma exactTail_self (n : Nat) : exactTail n n = none := exactTail_none.mpr rfl

/-! ### ACK, FIN -/

/-- The ACK payload. -/
structure Ack where
  delivered : UInt64
  window : UInt32
  epochEcho : UInt32
  deriving DecidableEq, Repr

def putAck (a : Ack) : Bytes := put64 a.delivered ++ put32 a.window ++ put32 a.epochEcho

def parseAck (p : Bytes) : Except WireErr Ack :=
  match exactTail p.length ackLen with
  | some e => .error e
  | none => .ok ⟨get64 p 0, get32 p 8, get32 p 12⟩

lemma ack_codec : IsCodec (fun a => some (putAck a)) parseAck fun _ => True where
  parse_put a _ := by
    refine ⟨_, rfl, ?_⟩
    simp [parseAck, putAck, ackLen]
  put_parse b a h := by
    unfold parseAck at h
    split at h
    · cases h
    rename_i hl
    have hl : b.length = 16 := exactTail_none.mp hl
    cases h
    refine ⟨trivial, congrArg some ?_⟩
    rw [putAck, put64_get64 (by omega), put32_get32 (by omega), put32_get32 (by omega),
      slice_join rfl, slice_join rfl, slice_all hl]

def putFin (off : UInt64) : Bytes := put64 off

def parseFin (p : Bytes) : Except WireErr UInt64 :=
  match exactTail p.length finLen with
  | some e => .error e
  | none => .ok (get64 p 0)

lemma fin_codec : IsCodec (fun off => some (putFin off)) parseFin fun _ => True where
  parse_put off _ := by
    refine ⟨_, rfl, ?_⟩
    simp [parseFin, putFin, finLen]
  put_parse b off h := by
    unfold parseFin at h
    split at h
    · cases h
    rename_i hl
    have hl : b.length = 8 := exactTail_none.mp hl
    cases h
    refine ⟨trivial, congrArg some ?_⟩
    rw [putFin, put64_get64 (by omega), slice_all hl]

/-! ### OPEN -/

def kindStream : UInt8 := 1
def kindDatagram : UInt8 := 2
def maxMode : UInt8 := 3
def openFlagEarly : UInt16 := 1

/-- The OPEN payload. -/
structure Open where
  sid : Fin 16 → UInt8
  kind : UInt8
  mode : UInt8
  flags : UInt16
  retainMs : UInt32
  window : UInt32
  pmtu : UInt16
  metadata : Bytes
  deriving DecidableEq

def putOpen (o : Open) : Option Bytes :=
  if maxMetadata < o.metadata.length then none
  else some (putBlock o.sid ++ [o.kind] ++ [o.mode] ++ put16 o.flags ++ put32 o.retainMs ++
    put32 o.window ++ put16 o.pmtu ++ put16 (UInt16.ofNat o.metadata.length) ++ o.metadata)

/-- The fixed fields of an OPEN payload, and the metadata behind them. -/
def openFields (p : Bytes) : Open where
  sid := getBlock 16 p 0
  kind := get8 p 16
  mode := get8 p 17
  flags := get16 p 18
  retainMs := get32 p 20
  window := get32 p 24
  pmtu := get16 p 28
  metadata := p.drop openFixedLen

/-- The value checks of `ParseOpen`, in its order. -/
def checkOpen (o : Open) : Option WireErr :=
  if o.sid = fun _ => 0 then some .reserved
  else if o.kind ≠ kindStream ∧ o.kind ≠ kindDatagram then some .value
  else if o.mode < 1 ∨ maxMode < o.mode then some .value
  else if o.flags &&& ~~~ openFlagEarly ≠ 0 then some .reserved
  else if o.flags &&& openFlagEarly ≠ 0 ∧ o.kind ≠ kindStream then some .reserved
  else if o.kind = kindStream ∧ o.pmtu ≠ 0 then some .reserved
  else if o.kind = kindDatagram ∧
      (o.pmtu.toNat < minPacketPayload ∨ maxPacketPayload < o.pmtu.toNat) then some .value
  else if o.kind = kindDatagram ∧ o.window ≠ 0 ∧
      (o.window.toNat < minFrameBudget ∨ maxDatagram < o.window.toNat) then some .value
  else none

/-- `ParseOpen`; `maxMeta` is clamped to what the format can carry. -/
def parseOpen (maxMeta : Int) (p : Bytes) : Except WireErr Open :=
  if p.length < openFixedLen then .error .short
  else
    let maxMeta := min (max maxMeta 0) maxMetadata
    let mlen := (get16 p 30).toNat
    if maxMeta < mlen then .error .length
    else
      match exactTail (p.length - openFixedLen) mlen with
      | some e => .error e
      | none =>
        match checkOpen (openFields p) with
        | some e => .error e
        | none => .ok (openFields p)

/-- The canonical OPENs of a passive that takes at most `maxMeta` octets of metadata. -/
structure Open.Canonical (maxMeta : Int) (o : Open) : Prop where
  metadata : (o.metadata.length : Int) ≤ min (max maxMeta 0) maxMetadata
  values : checkOpen o = none

lemma open_codec (maxMeta : Int) :
    IsCodec putOpen (parseOpen maxMeta) (Open.Canonical maxMeta) where
  parse_put o ho := by
    have hm : o.metadata.length ≤ 65535 := by
      have := ho.metadata
      unfold maxMetadata at this
      omega
    refine ⟨_, if_neg (by unfold maxMetadata; omega), ?_⟩
    have hlen : (UInt16.ofNat o.metadata.length).toNat = o.metadata.length := by
      rw [UInt16.toNat_ofNat', Nat.mod_eq_of_lt (by omega)]
    set b := putBlock o.sid ++ [o.kind] ++ [o.mode] ++ put16 o.flags ++ put32 o.retainMs ++
      put32 o.window ++ put16 o.pmtu ++ put16 (UInt16.ofNat o.metadata.length) ++ o.metadata with hb
    have hf : openFields b = o := by simp [hb, openFields, openFixedLen]
    have hmax := ho.metadata
    have hget : (get16 b 30).toNat = o.metadata.length := by
      rw [← hlen]
      simp [hb]
    rw [parseOpen, hf, ho.values, hget, if_neg (by simp [hb, openFixedLen]; omega)]
    rw [if_neg (by omega), exactTail_none.mpr (by simp [hb, openFixedLen]; omega)]
  put_parse b o h := by
    unfold parseOpen at h
    split_ifs at h with hshort
    simp only at h
    split_ifs at h with hlen
    split at h
    · cases h
    rename_i htail
    rw [exactTail_none] at htail
    split at h
    · cases h
    rename_i hval
    cases h
    unfold openFixedLen at hshort htail
    have hml : (openFields b).metadata.length = (get16 b 30).toNat := by
      simp only [openFields, openFixedLen, length_drop]
      omega
    refine ⟨⟨by rw [hml]; omega, hval⟩, ?_⟩
    have hlt := (get16 b 30).toNat_lt
    rw [putOpen, if_neg (by rw [hml]; unfold maxMetadata; omega), hml, UInt16.ofNat_toNat]
    refine congrArg some ?_
    simp only [openFields, openFixedLen]
    rw [putBlock_getBlock (by omega), get8_slice (by omega), get8_slice (by omega),
      put16_get16 (by omega), put32_get32 (by omega), put32_get32 (by omega),
      put16_get16 (by omega), put16_get16 (by omega), slice_join rfl, slice_join rfl,
      slice_join rfl, slice_join rfl, slice_join rfl, slice_join rfl, slice_join rfl,
      slice_join_drop rfl, drop_zero]

/-! ### OPEN_ACK -/

def statusOK : UInt8 := 0
def statusGoingAway : UInt8 := 5

/-- The OPEN_ACK payload. -/
structure OpenAck where
  status : UInt8
  window : UInt32
  code : UInt32
  msg : Bytes
  deriving DecidableEq, Repr

/-- `PutOpenAck`: writes the canonical zero fields whatever `a` holds. -/
def putOpenAck (a : OpenAck) : Option Bytes :=
  if maxMsg < a.msg.length then none
  else
    let window := if a.status = statusOK then a.window else 0
    let code := if a.status = statusOK then 0 else a.code
    let msg := if a.status = statusOK then [] else a.msg
    some ([a.status] ++ put32 window ++ put32 code ++ [UInt8.ofNat msg.length] ++ msg)

def parseOpenAck (p : Bytes) : Except WireErr OpenAck :=
  if p.length < openAckFixedLen then .error .short
  else
    let mlen := (get8 p 9).toNat
    match exactTail (p.length - openAckFixedLen) mlen with
    | some e => .error e
    | none =>
      let a : OpenAck := ⟨get8 p 0, get32 p 1, get32 p 5, p.drop openAckFixedLen⟩
      if statusGoingAway < a.status then .error .value
      else if a.status = statusOK then
        if a.code ≠ 0 ∨ mlen ≠ 0 then .error .reserved else .ok a
      else if a.window ≠ 0 then .error .reserved
      else .ok a

structure OpenAck.Canonical (a : OpenAck) : Prop where
  status : a.status ≤ statusGoingAway
  msg : a.msg.length ≤ maxMsg
  ok : a.status = statusOK → a.code = 0 ∧ a.msg = []
  refused : a.status ≠ statusOK → a.window = 0

lemma openAck_codec : IsCodec putOpenAck parseOpenAck OpenAck.Canonical where
  parse_put a ha := by
    have hm := ha.msg
    refine ⟨_, if_neg (by omega), ?_⟩
    have hs : ¬ statusGoingAway < a.status := UInt8.not_lt.mpr ha.status
    unfold maxMsg at hm
    by_cases hok : a.status = statusOK
    · obtain ⟨hc, hmsg⟩ := ha.ok hok
      cases a with
      | mk status window code msg =>
        simp only at hok hc hmsg hs
        subst hok hc hmsg
        simp [parseOpenAck, openAckFixedLen, hs]
    have hw := ha.refused hok
    cases a with
    | mk status window code msg =>
      simp only at hok hw hm hs
      subst hw
      have hmod : msg.length % 256 = msg.length := Nat.mod_eq_of_lt (by omega)
      simp [parseOpenAck, openAckFixedLen, hs, hok, hmod]
      rw [if_neg (by omega), exactTail_none.mpr (by omega)]
  put_parse b a h := by
    unfold parseOpenAck at h
    split_ifs at h with hshort
    simp only at h
    split at h
    · cases h
    rename_i htail
    rw [exactTail_none] at htail
    unfold openAckFixedLen at hshort htail
    have hmsg : (b.drop openAckFixedLen).length = (get8 b 9).toNat := by
      rw [length_drop]
      unfold openAckFixedLen
      omega
    have hlt := (get8 b 9).toNat_lt
    have hjoin : slice b 0 1 ++ slice b 1 4 ++ slice b 5 4 ++ slice b 9 1 ++
        b.drop openAckFixedLen = b := by
      unfold openAckFixedLen
      rw [slice_join rfl, slice_join rfl, slice_join rfl, slice_join_drop rfl, drop_zero]
    split_ifs at h with hst hok hres hwin
    · cases h
      simp only [not_or, not_not] at hres
      obtain ⟨hcode, hlen0⟩ := hres
      have hnil : b.drop openAckFixedLen = [] := length_eq_zero_iff.mp (by omega)
      refine ⟨⟨UInt8.not_lt.mp hst, by simp [hnil], fun _ => ⟨hcode, hnil⟩, fun hn => absurd hok hn⟩, ?_⟩
      rw [putOpenAck, if_neg (by simp [hnil])]
      simp only [hok, if_true]
      refine congrArg some ?_
      have h9 : UInt8.ofNat ([] : Bytes).length = get8 b 9 := by
        apply UInt8.toNat_inj.mp
        rw [hlen0]
        rfl
      rw [h9, ← hcode, ← hok, get8_slice (by omega), put32_get32 (by omega),
        put32_get32 (by omega), get8_slice (by omega), ← hnil, hjoin]
    cases h
    rw [not_not] at hwin
    refine ⟨⟨UInt8.not_lt.mp hst, by rw [hmsg]; unfold maxMsg; omega, fun hk => absurd hk hok,
      fun _ => hwin⟩, ?_⟩
    rw [putOpenAck, if_neg (by rw [hmsg]; unfold maxMsg; omega)]
    simp only [hok, if_false]
    refine congrArg some ?_
    rw [hmsg, UInt8.ofNat_toNat, ← hwin, get8_slice (by omega), put32_get32 (by omega),
      put32_get32 (by omega), get8_slice (by omega), hjoin]

/-! ### JOIN -/

/-- The JOIN payload. -/
structure Join where
  sid : Fin 16 → UInt8
  mode : UInt8
  rxNext : UInt64
  deriving DecidableEq

def putJoin (j : Join) : Bytes := putBlock j.sid ++ [j.mode] ++ put64 j.rxNext

def parseJoin (p : Bytes) : Except WireErr Join :=
  match exactTail p.length joinLen with
  | some e => .error e
  | none =>
    let j : Join := ⟨getBlock 16 p 0, get8 p 16, get64 p 17⟩
    if j.sid = fun _ => 0 then .error .reserved
    else if j.mode < 1 ∨ maxMode < j.mode then .error .value
    else .ok j

structure Join.Canonical (j : Join) : Prop where
  sid : j.sid ≠ fun _ => 0
  mode : ¬ (j.mode < 1 ∨ maxMode < j.mode)

lemma join_codec : IsCodec (fun j => some (putJoin j)) parseJoin Join.Canonical where
  parse_put j hj := by
    refine ⟨_, rfl, ?_⟩
    have hs := hj.sid
    have hm := hj.mode
    simp [parseJoin, putJoin, joinLen, hs]
    simpa using hm
  put_parse b j h := by
    unfold parseJoin at h
    split at h
    · cases h
    rename_i hl
    have hl : b.length = 25 := exactTail_none.mp hl
    simp only at h
    split_ifs at h with hsid hmode
    cases h
    refine ⟨⟨hsid, hmode⟩, congrArg some ?_⟩
    rw [putJoin, putBlock_getBlock (by omega), get8_slice (by omega), put64_get64 (by omega),
      slice_join rfl, slice_join rfl, slice_all hl]

/-! ### JOIN_ACK, plain and with a refusal code -/

/-- The JOIN_ACK payload. -/
structure JoinAck where
  status : UInt8
  rxNext : UInt64
  deriving DecidableEq, Repr

/-- `PutJoinAck`: writes 0 in the offset field of a refusal. -/
def putJoinAck (a : JoinAck) : Bytes :=
  [a.status] ++ put64 (if a.status ≠ statusOK then 0 else a.rxNext)

def parseJoinAck (p : Bytes) : Except WireErr JoinAck :=
  match exactTail p.length joinAckLen with
  | some e => .error e
  | none =>
    let a : JoinAck := ⟨get8 p 0, get64 p 1⟩
    if statusGoingAway < a.status then .error .value
    else if a.status ≠ statusOK ∧ a.rxNext ≠ 0 then .error .reserved
    else .ok a

structure JoinAck.Canonical (a : JoinAck) : Prop where
  status : a.status ≤ statusGoingAway
  refused : a.status ≠ statusOK → a.rxNext = 0

/-- The field a canonical JOIN_ACK carries is the one it is written with. -/
lemma JoinAck.Canonical.field {a : JoinAck} (ha : a.Canonical) :
    (if a.status ≠ statusOK then 0 else a.rxNext) = a.rxNext := by
  split_ifs with h
  · exact (ha.refused h).symm
  · rfl

lemma joinAck_codec : IsCodec (fun a => some (putJoinAck a)) parseJoinAck JoinAck.Canonical where
  parse_put a ha := by
    refine ⟨_, rfl, ?_⟩
    have hs : ¬ statusGoingAway < a.status := UInt8.not_lt.mpr ha.status
    rw [putJoinAck, ha.field]
    simp only [parseJoinAck]
    simp [joinAckLen, hs]
    exact fun h => ha.refused h
  put_parse b a h := by
    unfold parseJoinAck at h
    split at h
    · cases h
    rename_i hl
    have hl : b.length = 9 := exactTail_none.mp hl
    simp only at h
    split_ifs at h with hst href
    cases h
    have hc : JoinAck.Canonical ⟨get8 b 0, get64 b 1⟩ :=
      ⟨UInt8.not_lt.mp hst, fun hk => by by_contra hx; exact href ⟨hk, hx⟩⟩
    refine ⟨hc, congrArg some ?_⟩
    rw [putJoinAck, hc.field, get8_slice (by omega), put64_get64 (by omega), slice_join rfl,
      slice_all hl]

/-- A JOIN_ACK with the code of its refusal. -/
structure JoinAckMux where
  ack : JoinAck
  code : UInt32
  deriving DecidableEq, Repr

/-- `PutJoinAckMux`: `PutJoinAck`, with the code over the offset field of a refusal. -/
def putJoinAckMux (x : JoinAckMux) : Bytes :=
  if x.ack.status ≠ statusOK then (putJoinAck x.ack).take 1 ++ put64 x.code.toUInt64
  else putJoinAck x.ack

def parseJoinAckMux (p : Bytes) : Except WireErr JoinAckMux :=
  match exactTail p.length joinAckLen with
  | some e => .error e
  | none =>
    let a : JoinAck := ⟨get8 p 0, get64 p 1⟩
    if statusGoingAway < a.status then .error .value
    else if a.status = statusOK then .ok ⟨a, 0⟩
    else if a.rxNext >>> 32 ≠ 0 then .error .reserved
    else .ok ⟨{ a with rxNext := 0 }, a.rxNext.toUInt32⟩

structure JoinAckMux.Canonical (x : JoinAckMux) : Prop where
  status : x.ack.status ≤ statusGoingAway
  ok : x.ack.status = statusOK → x.code = 0
  refused : x.ack.status ≠ statusOK → x.ack.rxNext = 0

/-- The high half of a field is clear exactly when the low half is all of it. -/
lemma toUInt32_of_high_zero {x : UInt64} (h : x >>> 32 = 0) : x.toUInt32.toUInt64 = x := by
  have hn : x.toNat / 2 ^ 32 = 0 := by
    have := congrArg UInt64.toNat h
    simpa [UInt64.toNat_shiftRight, Nat.shiftRight_eq_div_pow] using this
  apply UInt64.toNat_inj.mp
  rw [UInt32.toNat_toUInt64, UInt64.toNat_toUInt32]
  omega

lemma high_zero_of_toUInt64 (c : UInt32) : c.toUInt64 >>> 32 = 0 := by
  have hc := c.toNat_lt
  apply UInt64.toNat_inj.mp
  simp only [UInt64.toNat_shiftRight, UInt32.toNat_toUInt64, Nat.shiftRight_eq_div_pow]
  exact Nat.div_eq_of_lt hc

lemma joinAckMux_codec :
    IsCodec (fun x => some (putJoinAckMux x)) parseJoinAckMux JoinAckMux.Canonical where
  parse_put x hx := by
    refine ⟨_, rfl, ?_⟩
    have hs : ¬ statusGoingAway < x.ack.status := UInt8.not_lt.mpr hx.status
    obtain ⟨⟨status, rx⟩, code⟩ := x
    simp only at hs
    by_cases hok : status = statusOK
    · have hcode : code = 0 := hx.ok hok
      subst hcode hok
      simp [parseJoinAckMux, putJoinAckMux, putJoinAck, joinAckLen, hs]
    have hrx : rx = 0 := hx.refused hok
    subst hrx
    simp [parseJoinAckMux, putJoinAckMux, putJoinAck, joinAckLen, hs, hok,
      high_zero_of_toUInt64]
  put_parse b x h := by
    unfold parseJoinAckMux at h
    split at h
    · cases h
    rename_i hl
    have hl : b.length = 9 := exactTail_none.mp hl
    have hjoin : [get8 b 0] ++ put64 (get64 b 1) = b := by
      rw [get8_slice (by omega), put64_get64 (by omega), slice_join rfl, slice_all hl]
    simp only at h
    split_ifs at h with hst hok hhigh
    · cases h
      refine ⟨⟨UInt8.not_lt.mp hst, fun _ => rfl, fun hn => absurd hok hn⟩, congrArg some ?_⟩
      rw [putJoinAckMux, if_neg (not_not.mpr hok), putJoinAck, if_neg (not_not.mpr hok), hjoin]
    cases h
    rw [not_not] at hhigh
    refine ⟨⟨UInt8.not_lt.mp hst, fun hk => absurd hk hok, fun _ => rfl⟩, congrArg some ?_⟩
    rw [putJoinAckMux, if_pos hok]
    simp only [toUInt32_of_high_zero hhigh]
    exact hjoin

/-! ### DATA -/

/-- A DATA payload: the offset prefix and the octets behind it. -/
structure Data where
  off : UInt64
  body : Bytes
  deriving DecidableEq, Repr

/-- `PutDataOffset`, with the octets the batch puts behind it. -/
def putData (d : Data) : Bytes := put64 d.off ++ d.body

/-- `DataEnd`: the offset just past `n` octets at `off`. -/
def dataEnd (off : UInt64) (n : Nat) : Except WireErr UInt64 :=
  if n < 1 ∨ maxFramePayload - dataPrefixLen < n then .error .length
  else if 2 ^ 64 - 1 - n < off.toNat then .error .value
  else .ok (off + UInt64.ofNat n)

/-- `ParseDataOffset`. -/
def parseDataOffset (p : Bytes) : Except WireErr UInt64 :=
  if p.length < dataPrefixLen then .error .length
  else
    match dataEnd (get64 p 0) (p.length - dataPrefixLen) with
    | .error e => .error e
    | .ok _ => .ok (get64 p 0)

/-- A DATA payload as a reader takes it apart. -/
def parseData (p : Bytes) : Except WireErr Data :=
  match parseDataOffset p with
  | .error e => .error e
  | .ok off => .ok ⟨off, p.drop dataPrefixLen⟩

/-- The DATA payloads a frame can carry and whose end is an offset. -/
def Data.Canonical (d : Data) : Prop := ∃ e, dataEnd d.off d.body.length = .ok e

lemma data_codec : IsCodec (fun d => some (putData d)) parseData Data.Canonical where
  parse_put d hd := by
    obtain ⟨e, he⟩ := hd
    refine ⟨_, rfl, ?_⟩
    have hlen : (put64 d.off ++ d.body).length - dataPrefixLen = d.body.length := by
      simp [dataPrefixLen]
    rw [parseData, parseDataOffset, putData, if_neg (by simp [dataPrefixLen]), hlen,
      get64_put64, he]
    simp [dataPrefixLen]
  put_parse b d h := by
    unfold parseData parseDataOffset at h
    split_ifs at h with hshort
    unfold dataPrefixLen at hshort
    cases hde : dataEnd (get64 b 0) (b.length - dataPrefixLen) with
    | error e => rw [hde] at h; cases h
    | ok e =>
      rw [hde] at h
      cases h
      refine ⟨⟨e, by rw [length_drop]; exact hde⟩, congrArg some ?_⟩
      simp only [putData, dataPrefixLen]
      rw [put64_get64 (by omega), slice_join_drop rfl, drop_zero]

/-! ### RST -/

/-- The RST payload. -/
structure Rst where
  code : UInt32
  msg : Bytes
  deriving DecidableEq, Repr

def putRst (r : Rst) : Option Bytes :=
  if maxMsg < r.msg.length then none
  else some (put32 r.code ++ [UInt8.ofNat r.msg.length] ++ r.msg)

def parseRst (p : Bytes) : Except WireErr Rst :=
  if p.length < rstFixedLen then .error .short
  else
    match exactTail (p.length - rstFixedLen) (get8 p 4).toNat with
    | some e => .error e
    | none => .ok ⟨get32 p 0, p.drop rstFixedLen⟩

lemma rst_codec : IsCodec putRst parseRst fun r => r.msg.length ≤ maxMsg where
  parse_put r hr := by
    refine ⟨_, if_neg (by omega), ?_⟩
    unfold maxMsg at hr
    have hmod : r.msg.length % 256 = r.msg.length := Nat.mod_eq_of_lt (by omega)
    simp [parseRst, rstFixedLen, hmod]
    rw [if_neg (by omega), exactTail_none.mpr (by omega)]
  put_parse b r h := by
    unfold parseRst at h
    split_ifs at h with hshort
    split at h
    · cases h
    rename_i htail
    rw [exactTail_none] at htail
    unfold rstFixedLen at hshort htail
    cases h
    have hlt := (get8 b 4).toNat_lt
    have hmsg : (b.drop rstFixedLen).length = (get8 b 4).toNat := by
      rw [length_drop]
      unfold rstFixedLen
      omega
    refine ⟨by rw [hmsg]; unfold maxMsg; omega, ?_⟩
    rw [putRst, if_neg (by rw [hmsg]; unfold maxMsg; omega), hmsg, UInt8.ofNat_toNat]
    refine congrArg some ?_
    simp only [rstFixedLen]
    rw [put32_get32 (by omega), get8_slice (by omega), slice_join rfl, slice_join_drop rfl,
      drop_zero]

/-! ### SCHED -/

/-- The SCHED payload; `ids` are the first `N` entries of the array, the only ones that exist. -/
structure Sched where
  epoch : UInt32
  death : UInt64
  quality : UInt64
  explicit : UInt64
  ids : List UInt32
  deriving DecidableEq, Repr

def putSched (s : Sched) : Option Bytes :=
  if s.ids.length < 1 ∨ maxSchedIDs < s.ids.length then none
  else some (put32 s.epoch ++ put64 s.death ++ put64 s.quality ++ put64 s.explicit ++
    [UInt8.ofNat s.ids.length] ++ s.ids.flatMap put32)

/-- The loop of `ParseSched` over the `k` identifiers left, the first at `i`, those read so far in
`acc`. -/
def schedIDs (p : Bytes) : (k i : Nat) → (acc : List UInt32) → Except WireErr (List UInt32)
  | 0, _, acc => .ok acc
  | k + 1, i, acc =>
    let id := get32 p i
    if id = 0 then .error .value
    else if id ∈ acc then .error .value
    else schedIDs p k (i + 4) (acc ++ [id])

def parseSched (p : Bytes) : Except WireErr Sched :=
  if p.length < schedFixedLen then .error .short
  else
    let n := (get8 p 28).toNat
    if n < 1 ∨ maxSchedIDs < n then .error .value
    else
      match exactTail (p.length - schedFixedLen) (4 * n) with
      | some e => .error e
      | none =>
        match schedIDs p n schedFixedLen [] with
        | .error e => .error e
        | .ok ids => .ok ⟨get32 p 0, get64 p 4, get64 p 12, get64 p 20, ids⟩

structure Sched.Canonical (s : Sched) : Prop where
  pos : 1 ≤ s.ids.length
  le : s.ids.length ≤ maxSchedIDs
  nonzero : ∀ id ∈ s.ids, id ≠ 0
  distinct : s.ids.Nodup

lemma get32_drop (p : Bytes) (i : Nat) : get32 (p.drop i) 0 = get32 p i := by
  simp [get32, slice]

/-- The loop reads back a written list of non-zero distinct identifiers. -/
lemma schedIDs_put {p : Bytes} {i : Nat} {ids acc : List UInt32}
    (hp : p.drop i = ids.flatMap put32) (hnz : ∀ id ∈ ids, id ≠ 0) (hnd : (acc ++ ids).Nodup) :
    schedIDs p ids.length i acc = .ok (acc ++ ids) := by
  induction ids generalizing i acc with
  | nil => simp [schedIDs]
  | cons id ids ih =>
    have hid : get32 p i = id := by
      rw [← get32_drop, hp, flatMap_cons, get32_put32]
    have hmem : id ∉ acc := by
      rw [nodup_append] at hnd
      exact fun h => hnd.2.2 id h id (by simp) rfl
    have hdrop : p.drop (i + 4) = ids.flatMap put32 := by
      rw [← drop_drop, hp, flatMap_cons]
      exact drop_left' (length_put32 id)
    simp only [length_cons, schedIDs, hid]
    rw [if_neg (hnz id (by simp)), if_neg hmem,
      ih hdrop (fun x hx => hnz x (by simp [hx])) (by simpa using hnd)]
    simp

/-- What the loop accepts it can write again. -/
lemma schedIDs_ok {p : Bytes} {k i : Nat} {acc out : List UInt32}
    (h : schedIDs p k i acc = .ok out) (hl : i + 4 * k ≤ p.length) (hnd : acc.Nodup) :
    ∃ ids, out = acc ++ ids ∧ ids.length = k ∧ (∀ id ∈ ids, id ≠ 0) ∧ out.Nodup ∧
      ids.flatMap put32 = slice p i (4 * k) := by
  induction k generalizing i acc with
  | zero =>
    cases h
    exact ⟨[], by simp, rfl, by simp, hnd, by simp [slice]⟩
  | succ k ih =>
    simp only [schedIDs] at h
    split_ifs at h with hz hmem
    have hnd' : (acc ++ [get32 p i]).Nodup := by
      rw [nodup_append]
      refine ⟨hnd, by simp, ?_⟩
      rintro a ha b hb rfl
      rw [mem_singleton] at hb
      exact hmem (hb ▸ ha)
    obtain ⟨ids, rfl, hk, hnz, hout, hbytes⟩ := ih h (by omega) hnd'
    refine ⟨get32 p i :: ids, by simp, by simp [hk], ?_, hout, ?_⟩
    · intro id hid
      rcases mem_cons.mp hid with rfl | hid
      · exact hz
      · exact hnz id hid
    · rw [flatMap_cons, hbytes, put32_get32 (by omega), slice_join rfl]
      congr 1
      omega

lemma sched_codec : IsCodec putSched parseSched Sched.Canonical where
  parse_put s hs := by
    have h1 := hs.pos
    have h2 := hs.le
    refine ⟨_, if_neg (by omega), ?_⟩
    unfold maxSchedIDs at h2
    have hn : (UInt8.ofNat s.ids.length).toNat = s.ids.length := by
      rw [UInt8.toNat_ofNat', Nat.mod_eq_of_lt (by omega)]
    have hids : (s.ids.flatMap put32).length = 4 * s.ids.length := by
      rw [length_flatMap]
      simp [Nat.mul_comm]
    generalize hp : put32 s.epoch ++ put64 s.death ++ put64 s.quality ++ put64 s.explicit ++
      [UInt8.ofNat s.ids.length] ++ s.ids.flatMap put32 = p
    have hlen : p.length = schedFixedLen + 4 * s.ids.length := by
      rw [← hp]
      simp [hids, schedFixedLen]
      omega
    have hdrop : p.drop schedFixedLen = s.ids.flatMap put32 := by
      rw [← hp]
      simp [schedFixedLen]
    have h28 : (get8 p 28).toNat = s.ids.length := by
      rw [← hn, ← hp]
      simp
    rw [parseSched, if_neg (by omega)]
    simp only [h28]
    rw [if_neg (by unfold maxSchedIDs; omega), exactTail_none.mpr (by omega),
      schedIDs_put hdrop hs.nonzero (by simpa using hs.distinct)]
    rw [← hp]
    simp
  put_parse b s h := by
    unfold parseSched at h
    split_ifs at h with hshort
    simp only at h
    split_ifs at h with hn
    split at h
    · cases h
    rename_i htail
    rw [exactTail_none] at htail
    split at h
    · cases h
    rename_i ids hids
    cases h
    unfold schedFixedLen at hshort htail
    obtain ⟨ids', rfl, hk, hnz, hnd, hbytes⟩ := schedIDs_ok hids (by unfold schedFixedLen; omega)
      nodup_nil
    refine ⟨⟨by simp only [nil_append]; omega, by simp only [nil_append]; omega, hnz,
      hnd⟩, ?_⟩
    rw [putSched, if_neg (by simp only [nil_append]; omega)]
    refine congrArg some ?_
    simp only [nil_append, hk, UInt8.ofNat_toNat, hbytes, schedFixedLen]
    rw [put32_get32 (by omega), put64_get64 (by omega), put64_get64 (by omega),
      put64_get64 (by omega), get8_slice (by omega), slice_join rfl, slice_join rfl,
      slice_join rfl, slice_join rfl, slice_join rfl, slice_all (by omega)]

/-! ### PING, PONG -/

/-- The PING and PONG payload. -/
structure Ping where
  id : UInt32
  ts : UInt64
  nonce : UInt64
  pad : Nat
  deriving DecidableEq, Repr

def putPing (p : Ping) : Option Bytes :=
  if maxPingPad < p.pad then none
  else some (put32 p.id ++ put64 p.ts ++ put64 p.nonce ++ List.replicate p.pad 0)

/-- `CheckPad`: eight octets at a time as one little-endian word, then the rest one by one. -/
def checkPad : Bytes → Option WireErr
  | b0 :: b1 :: b2 :: b3 :: b4 :: b5 :: b6 :: b7 :: rest =>
    if getBE [b7, b6, b5, b4, b3, b2, b1, b0] ≠ 0 then some .reserved else checkPad rest
  | rest => if rest.any (· ≠ 0) then some .reserved else none

variable {bs : Bytes}

lemma getBE_eq_zero : getBE bs = 0 ↔ ∀ b ∈ bs, b = 0 := by
  induction bs with
  | nil => simp [getBE, getBEFrom]
  | cons b bs ih =>
    have hpos : 0 < 256 ^ bs.length := by positivity
    rw [getBE_cons, Nat.add_eq_zero_iff, ih, Nat.mul_eq_zero]
    simp only [mem_cons, forall_eq_or_imp, hpos.ne', or_false]
    rw [← UInt8.toNat_inj]
    rfl

lemma checkPad_none : checkPad bs = none ↔ ∀ b ∈ bs, b = 0 := by
  fun_induction checkPad bs with
  | case1 b0 b1 b2 b3 b4 b5 b6 b7 rest hne =>
    rw [ne_eq, getBE_eq_zero] at hne
    simp only [reduceCtorEq, false_iff]
    intro h
    apply hne
    intro b hb
    apply h
    simp only [mem_cons, not_mem_nil, or_false] at hb ⊢
    tauto
  | case2 b0 b1 b2 b3 b4 b5 b6 b7 rest heq ih =>
    rw [ne_eq, not_not, getBE_eq_zero] at heq
    simp only [mem_cons, not_mem_nil, or_false, forall_eq_or_imp, forall_eq] at heq ⊢
    tauto
  | case3 rest _ hany =>
    simp only [reduceCtorEq, false_iff]
    simpa using hany
  | case4 rest _ hany =>
    simpa using hany

/-- A string of zero octets is determined by its length. -/
lemma replicate_of_checkPad (h : checkPad bs = none) : List.replicate bs.length 0 = bs :=
  (eq_replicate_of_mem (checkPad_none.mp h)).symm

def parsePing (p : Bytes) : Except WireErr Ping :=
  if p.length < pingFixedLen then .error .short
  else
    let pad := p.length - pingFixedLen
    if maxPingPad < pad then .error .length
    else
      match checkPad (p.drop pingFixedLen) with
      | some e => .error e
      | none => .ok ⟨get32 p 0, get64 p 4, get64 p 12, pad⟩

lemma ping_codec : IsCodec putPing parsePing fun p => p.pad ≤ maxPingPad where
  parse_put p hp := by
    refine ⟨_, if_neg (by omega), ?_⟩
    have hpad : checkPad (List.replicate p.pad 0) = none :=
      checkPad_none.mpr fun b hb => eq_of_mem_replicate hb
    simp [parsePing, pingFixedLen, hpad]
    rw [if_neg (by omega), if_neg (by omega)]
    congr 2
    omega
  put_parse b p h := by
    unfold parsePing at h
    split_ifs at h with hshort
    simp only at h
    split_ifs at h with hlen
    split at h
    · cases h
    rename_i hpad
    cases h
    refine ⟨not_lt.mp hlen, ?_⟩
    rw [putPing, if_neg hlen]
    refine congrArg some ?_
    have hrep := replicate_of_checkPad hpad
    rw [length_drop] at hrep
    simp only [hrep]
    unfold pingFixedLen at hshort ⊢
    rw [put32_get32 (by omega), put64_get64 (by omega), put64_get64 (by omega), slice_join rfl,
      slice_join rfl, slice_join_drop rfl, drop_zero]

/-! ### CLOSE, GOAWAY -/

def closeRetire : UInt8 := 1
def closeCapacity : UInt8 := 2
def goAwayShutdown : UInt8 := 1

/-- `PutReason`, of both types. -/
def putReason (r : UInt8) : Bytes := [r]

def parseClose (p : Bytes) : Except WireErr UInt8 :=
  match exactTail p.length reasonLen with
  | some e => .error e
  | none =>
    if get8 p 0 = closeRetire ∨ get8 p 0 = closeCapacity then .ok (get8 p 0) else .error .value

def parseGoAway (p : Bytes) : Except WireErr UInt8 :=
  match exactTail p.length reasonLen with
  | some e => .error e
  | none => if get8 p 0 = goAwayShutdown then .ok (get8 p 0) else .error .value

lemma close_codec : IsCodec (fun r => some (putReason r)) parseClose
    fun r => r = closeRetire ∨ r = closeCapacity where
  parse_put r hr := by
    refine ⟨_, rfl, ?_⟩
    simp [parseClose, putReason, reasonLen, hr]
  put_parse b r h := by
    unfold parseClose at h
    split at h
    · cases h
    rename_i hl
    have hl : b.length = 1 := exactTail_none.mp hl
    split_ifs at h with hr
    cases h
    exact ⟨hr, congrArg some (by rw [putReason, get8_slice (by omega), slice_all hl])⟩

lemma goAway_codec : IsCodec (fun r => some (putReason r)) parseGoAway
    fun r => r = goAwayShutdown where
  parse_put r hr := by
    refine ⟨_, rfl, ?_⟩
    simp [parseGoAway, putReason, reasonLen, hr]
  put_parse b r h := by
    unfold parseGoAway at h
    split at h
    · cases h
    rename_i hl
    have hl : b.length = 1 := exactTail_none.mp hl
    split_ifs at h with hr
    cases h
    exact ⟨hr, congrArg some (by rw [putReason, get8_slice (by omega), slice_all hl])⟩

end Rendr.Wire
