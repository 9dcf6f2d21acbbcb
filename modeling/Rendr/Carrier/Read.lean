import Rendr.Wire.Dgram

/-!
# The reader of a stream carrier

The reader goroutine (`reader.go`): the 16 KiB stage and `fill`, the read of one frame by its five
paths — a frame in the stage, a big DATA or DGRAM read by reference with look-ahead (`readBigData`),
a MUX frame beyond the stage (`readMux`), an extension or a padded PING or PONG through the stage
(`readStreamed`) — and the loop that hands verified frames over.

The conn delivers a stream of octets and then an error. A Read cuts the stream anywhere: its count
is any from 1 to the request, and the error comes with the last octets or after them, as the cuts
say. Which view a frame is for, and whether its handler lets the reader go on, are functions of the
frames handed over before (`Env`).
-/

namespace Rendr.Carrier.Read

open List Octets Wire

export Octets (slice)
export Wire (Frame)

/-! ### The conn -/

/-- A conn: the octets it still delivers, the cuts of its Reads and how many Reads were made. -/
structure Conn where
  rest : Bytes
  cuts : Nat → Nat × Bool
  calls : Nat

/-- A Read of at most `len` octets: the octets, and whether the error came with them. -/
def Conn.read (c : Conn) (len : Nat) : Bytes × Bool × Conn :=
  let n := min len (min c.rest.length (max 1 (c.cuts c.calls).1))
  (c.rest.take n, c.rest.isEmpty || (c.cuts c.calls).2 && decide (n = c.rest.length),
    { c with rest := c.rest.drop n, calls := c.calls + 1 })

/-! ### The stage -/

/-- The stage's octets: the smallest size class of the pool and its slack. -/
def stageLen : Nat := 16384 + 64

/-- `BigData`, the payload from which DATA is read by reference. -/
def bigData : Nat := 16384

/-- `LookAhead`. -/
def lookAhead : Nat := 25

def dataHeadLen : Nat := headerLen + dataPrefixLen

/-- The reader's state: `held` is `stage.B[r:w]`. -/
structure Reader where
  r : Nat
  held : Bytes
  /-- A Read returned an error with octets. -/
  pending : Bool
  fseq : UInt32

/-- Why the reader stops. -/
inductive Stop
  /-- A read error (`readFailed`). -/
  | read
  | violation
  /-- The handler of a frame ended the reader. -/
  | handler
  deriving DecidableEq, Repr

/-- The loop of `fill`. -/
def fillLoop (need : Nat) (rd : Reader) (c : Conn) : Option (Reader × Conn) :=
  if need ≤ rd.held.length then some (rd, c)
  else if rd.pending then none
  else
    let r := if stageLen - rd.r < need then 0 else rd.r
    match _h : c.read (stageLen - (r + rd.held.length)) with
    | ([], _, _) => none
    | (b :: bs, err, c') =>
      fillLoop need { rd with r := r, held := rd.held ++ b :: bs, pending := err } c'
termination_by c.rest.length
decreasing_by
  simp only [Conn.read, Prod.mk.injEq] at _h
  obtain ⟨h1, -, rfl⟩ := _h
  have := congrArg List.length h1
  simp only [length_take, length_cons, length_drop] at this ⊢
  omega

/-- `fill`: at least `need` octets in the stage. -/
def fill (need : Nat) (rd : Reader) (c : Conn) : Option (Reader × Conn) :=
  fillLoop need (if rd.held.isEmpty then { rd with r := 0 } else rd) c

/-- The consumed octets leave the stage. -/
def Reader.consume (rd : Reader) (n : Nat) : Reader :=
  { rd with r := rd.r + n, held := rd.held.drop n }

/-! ### The paths of a frame -/

/-- What a path returns: the payload it hands over, or why the reader stops. -/
abbrev Path := Except Stop (Bytes × Reader × Conn)

/-- A frame in the stage. -/
def readStaged (h : Header) (rd : Reader) (c : Conn) : Path :=
  let last := headerLen + h.len.toNat
  match fill (last + trailerLen) rd c with
  | none => .error .read
  | some (rd, c) =>
    if crc (rd.held.take last) ≠ get32 rd.held last then .error .violation
    else .ok (slice rd.held headerLen h.len.toNat, rd.consume (last + trailerLen), c)

/-- The loops that read into a buffer of its own, up to `limit` octets, until it has `want`: the
buffer, the pending mark and the conn. -/
def gather (want limit : Nat) (got : Bytes) (pending : Bool) (c : Conn) :
    Option (Bytes × Bool × Conn) :=
  if want ≤ got.length then some (got, pending, c)
  else if pending then none
  else
    match _h : c.read (limit - got.length) with
    | ([], _, _) => none
    | (b :: bs, err, c') =>
      if err && decide ((got ++ b :: bs).length < want) then none
      else gather want limit (got ++ b :: bs) err c'
termination_by c.rest.length
decreasing_by
  simp only [Conn.read, Prod.mk.injEq] at _h
  obtain ⟨h1, -, rfl⟩ := _h
  have := congrArg List.length h1
  simp only [length_take, length_cons, length_drop] at this ⊢
  omega

/-- A MUX frame beyond the stage (`readMux`). -/
def readOwn (h : Header) (rd : Reader) (c : Conn) : Path :=
  let last := headerLen + h.len.toNat
  let total := last + trailerLen
  match gather total total (rd.held.take total) rd.pending c with
  | none => .error .read
  | some (buf, pending, c) =>
    let rd : Reader := { rd with r := 0, held := rd.held.drop total, pending := pending }
    if crc (buf.take last) ≠ get32 buf last then .error .violation
    else .ok (slice buf headerLen h.len.toNat, rd, c)

/-- `readBigData`. -/
def readBigData (h : Header) (rd : Reader) (c : Conn) : Path :=
  let n := h.len.toNat - dataPrefixLen
  match fill dataHeadLen rd c with
  | none => .error .read
  | some (rd, c) =>
    let head := rd.held.take dataHeadLen
    if h.type ≠ typeDgram ∧ (dataEnd (get64 head headerLen) n matches .error _) then
      .error .violation
    else
      let rd := rd.consume dataHeadLen
      let want := n + trailerLen
      match gather want (n + lookAhead) (rd.held.take want) rd.pending c with
      | none => .error .read
      | some (buf, pending, c) =>
        -- the octets of the next frame go back to the stage
        let rd : Reader := { rd with r := if rd.held.length < want then 0 else rd.r + want
                                     held := buf.drop want ++ rd.held.drop want
                                     pending := pending }
        if crcUpdate (crc head) (buf.take n) ≠ get32 buf n then .error .violation
        else .ok (head.drop headerLen ++ buf.take n, rd, c)

variable {rd rd₁ : Reader}

lemma readBigData_refused (h : Header) {c c₁ : Conn}
    (hf : fill dataHeadLen rd c = some (rd₁, c₁))
    (href : h.type ≠ typeDgram ∧ ∃ e, dataEnd (get64 (rd₁.held.take dataHeadLen) headerLen)
      (h.len.toNat - dataPrefixLen) = .error e) : readBigData h rd c = .error .violation := by
  obtain ⟨htype, e, he⟩ := href
  rw [readBigData, hf]
  dsimp only
  rw [he]
  exact if_pos ⟨htype, rfl⟩

/-- The rest of `readBigData`, behind the checks of the head. -/
lemma readBigData_gather (h : Header) {c c₁ : Conn}
    (hf : fill dataHeadLen rd c = some (rd₁, c₁))
    (href : ¬(h.type ≠ typeDgram ∧ ∃ e, dataEnd (get64 (rd₁.held.take dataHeadLen) headerLen)
      (h.len.toNat - dataPrefixLen) = .error e)) :
    readBigData h rd c =
      let n := h.len.toNat - dataPrefixLen
      match gather (n + trailerLen) (n + lookAhead)
        ((rd₁.consume dataHeadLen).held.take (n + trailerLen)) rd₁.pending c₁ with
      | none => .error .read
      | some (buf, p, c') =>
        if crcUpdate (crc (rd₁.held.take dataHeadLen)) (buf.take n) ≠ get32 buf n then
          .error .violation
        else .ok ((rd₁.held.take dataHeadLen).drop headerLen ++ buf.take n,
          { rd₁.consume dataHeadLen with
            r := if (rd₁.consume dataHeadLen).held.length < n + trailerLen then 0
              else (rd₁.consume dataHeadLen).r + (n + trailerLen)
            held := buf.drop (n + trailerLen) ++
              (rd₁.consume dataHeadLen).held.drop (n + trailerLen)
            pending := p }, c') := by
  rw [readBigData, hf]
  refine if_neg fun hc => href ⟨hc.1, ?_⟩
  cases hd : dataEnd (get64 (rd₁.held.take dataHeadLen) headerLen)
    (h.len.toNat - dataPrefixLen) with
  | error e => exact ⟨e, rfl⟩
  | ok v =>
    rw [hd] at hc
    cases hc.2

/-- The loop of `readStreamed` over `remain` octets, with the running checksum and the fixed part
kept so far. -/
def streamLoop (isPing : Bool) (remain : Nat) (sum : UInt32) (fixed : Bytes) (rd : Reader)
    (c : Conn) : Except Stop (UInt32 × Bytes × Reader × Conn) :=
  if _hr : remain = 0 then .ok (sum, fixed, rd, c)
  else
    match if rd.held.isEmpty then fill 1 rd c else some (rd, c) with
    | none => .error .read
    | some (rd, c) =>
      let k := min remain rd.held.length
      if _hk : k = 0 then .error .read
      else
        let chunk := rd.held.take k
        let m := if isPing then min (pingFixedLen - fixed.length) k else 0
        if isPing ∧ (checkPad (chunk.drop m)).isSome then .error .violation
        else streamLoop isPing (remain - k) (crcUpdate sum chunk) (fixed ++ chunk.take m)
          (rd.consume k) c
termination_by remain

/-- `readStreamed`: an extension's payload is discarded, a PING or PONG is its fixed part and as
many zeros. -/
def readStreamed (h : Header) (rd : Reader) (c : Conn) : Path :=
  let isPing := h.type == typePing || h.type == typePong
  if !extension h.type && !isPing then .error .violation
  else
    match streamLoop isPing h.len.toNat (crc (rd.held.take headerLen)) [] (rd.consume headerLen) c
      with
    | .error s => .error s
    | .ok (sum, fixed, rd, c) =>
      match fill trailerLen rd c with
      | none => .error .read
      | some (rd, c) =>
        if sum ≠ get32 rd.held 0 then .error .violation
        else .ok (fixed ++ List.replicate (h.len.toNat - pingFixedLen) 0, rd.consume trailerLen, c)

lemma readStreamed_loop {h : Header} (rd : Reader) (c : Conn)
    (htype : ¬(!extension h.type && !(h.type == typePing || h.type == typePong)) = true) :
    readStreamed h rd c =
      match streamLoop (h.type == typePing || h.type == typePong) h.len.toNat
        (crc (rd.held.take headerLen)) [] (rd.consume headerLen) c with
      | .error s => .error s
      | .ok (sum, fixed, rd, c) =>
        match fill trailerLen rd c with
        | none => .error .read
        | some (rd, c) =>
          if sum ≠ get32 rd.held 0 then .error .violation
          else .ok (fixed ++ List.replicate (h.len.toNat - pingFixedLen) 0,
            rd.consume trailerLen, c) := by
  rw [readStreamed]
  exact if_neg htype

/-! ### One frame -/

/-- How a session frame is routed. -/
inductive Route
  /-- No view has the handle, the view has no session, or the view's state forbids the frame. -/
  | illegal
  /-- A view takes it; `pep` says that the view's session is a packet session. -/
  | view (pep : Bool)
  /-- A MUX frame that no view's endpoint takes: a first frame, a response, or one that is
  dropped. -/
  | mux
  deriving DecidableEq, Repr

/-- What is around the reader, by the frames handed over before. -/
structure Env where
  /-- The peer's CLOSE arrived. -/
  closed : List Frame → Bool
  route : List Frame → Header → Route
  /-- The frame's handler lets the reader go on. -/
  handle : List Frame → Frame → Bool

/-- How a verified header is treated, before its payload is read. -/
inductive Verdict
  | refuse
  | skip
  /-- The payload is read and handed over; a session frame by its route. -/
  | take (route : Option Route)
  deriving DecidableEq, Repr

/-- The first frames, which no view takes after its establishment. -/
def firstFrame (t : UInt8) : Bool :=
  t == typeOpen || t == typeOpenAck || t == typeJoin || t == typeJoinAck

/-- The checks of `readFrame` on a header. -/
def verdict (env : Env) (seen : List Frame) (fseq : UInt32) (h : Header) : Verdict :=
  if h.fseq ≠ fseq then .refuse
  else if env.closed seen then .refuse
  else if h.type = typeRel ∨ h.type = typeRack then .refuse
  else if extension h.type then .skip
  else if carrierLevel h.type then .take none
  else
    match env.route seen h with
    | .illegal => .refuse
    | .mux => .take (some .mux)
    | .view pep => if firstFrame h.type then .refuse else .take (some (.view pep))

/-- The checks of `dispatch` on a payload before it is handed over. -/
def payloadOk (route : Option Route) (f : Frame) : Bool :=
  match route with
  | some .mux => true
  | _ =>
    if f.header.type = typePing ∨ f.header.type = typePong then parsePing f.payload matches .ok _
    else if f.header.type = typeClose then parseClose f.payload matches .ok _
    else if f.header.type = typeGoAway then parseGoAway f.payload matches .ok _
    else if f.header.type = typeData then parseDataOffset f.payload matches .ok _
    else if f.header.type = typeDgram then
      (route == some (.view true)) && (parseDgram f.payload matches .ok _)
    else true

/-- The path that reads the payload (`readFrame`). -/
def readPayload (route : Option Route) (h : Header) (rd : Reader) (c : Conn) : Path :=
  if route = some .mux then
    if headerLen + h.len.toNat + trailerLen ≤ stageLen then readStaged h rd c else readOwn h rd c
  else if h.type = typeData ∧ bigData ≤ h.len.toNat - dataPrefixLen then readBigData h rd c
  else if h.type = typeDgram ∧ route = some (.view true) ∧
      bigData ≤ h.len.toNat - dgramPrefixLen then readBigData h rd c
  else if headerLen + h.len.toNat + trailerLen ≤ stageLen then readStaged h rd c
  else readStreamed h rd c

/-- What one frame comes to. -/
inductive Step
  | stop (s : Stop)
  | skip (n : Nat) (rd : Reader) (c : Conn)
  | got (f : Frame) (rd : Reader) (c : Conn)

/-- `readFrame`, up to the handler's call. -/
def readFrame (env : Env) (seen : List Frame) (rd : Reader) (c : Conn) : Step :=
  match fill headerLen rd c with
  | none => .stop .read
  | some (rd, c) =>
    match parseHeader rd.held with
    | .error _ => .stop .violation
    | .ok h =>
      match verdict env seen rd.fseq h with
      | .refuse => .stop .violation
      | .skip =>
        match readPayload none h rd c with
        | .error s => .stop s
        | .ok (_, rd, c) =>
          .skip (headerLen + h.len.toNat + trailerLen) { rd with fseq := rd.fseq + 1 } c
      | .take route =>
        match readPayload route h rd c with
        | .error s => .stop s
        | .ok (payload, rd, c) =>
          if payloadOk route ⟨h, payload⟩ then .got ⟨h, payload⟩ { rd with fseq := rd.fseq + 1 } c
          else .stop .violation

/-- What the reader did: the frames handed over, newest first, the octets of the frames before the
one it stopped at, and why it stopped. -/
structure Outcome where
  seen : List Frame
  pos : Nat
  stop : Stop

/-- The octets of a frame. -/
def frameLen (f : Frame) : Nat := headerLen + f.payload.length + trailerLen

/-- `readLoop`; `none` when the fuel is used up. -/
def readLoop (env : Env) : Nat → List Frame → Nat → Reader → Conn → Option Outcome
  | 0, _, _, _, _ => none
  | fuel + 1, seen, pos, rd, c =>
    match readFrame env seen rd c with
    | .stop s => some ⟨seen, pos, s⟩
    | .skip n rd c => readLoop env fuel seen (pos + n) rd c
    | .got f rd c =>
      if env.handle seen f then readLoop env fuel (f :: seen) (pos + frameLen f) rd c
      else some ⟨f :: seen, pos, .handler⟩

/-- The reader of a conn whose next frame number is `fseq`. -/
def Reader.start (fseq : UInt32) : Reader := ⟨0, [], false, fseq⟩

end Rendr.Carrier.Read
