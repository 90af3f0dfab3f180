import AoaBoard.Xbee.Receiver

/-!
# The radio link from `xbee_send` to the data callback

Messages are sent one after the other and the bytes given to the UART are
collected. The two XBee modules between the boards are the relation `Relayed`:
each TX-64 frame becomes one RX-64 frame with the sender's address, a signal
strength, an option byte and the same payload, and bytes other than the start
delimiter may stand before, between and behind the frames. A `Reception` is
what the data callback can read through its arguments.
-/

namespace AoaBoard.Xbee
open Library Library.Run Library.Bytes Board

structure Message where
  addrHi : UInt32
  addrLo : UInt32
  data : ℕ → UInt8
  len : UInt8
  frameId : Option UInt8

def Message.payload (m : Message) : List UInt8 := slice m.data m.len.toNat

def send (x : XbeeState) (m : Message) : Sent :=
  xbeeSend x m.addrHi m.addrLo m.data m.len m.frameId

def sendStep (x : XbeeState) (m : Message) : XbeeState × List Sent :=
  ((send x m).xbee, [send x m])

def tx64Body (id : UInt8) (m : Message) : List UInt8 :=
  [apiIdTx64, id] ++ int32bitToBuf m.addrHi ++ int32bitToBuf m.addrLo ++ [0] ++ m.payload

/-- One well-formed API frame that carries the message. -/
def Emitted (m : Message) (s : Sent) : Prop :=
  s.err = .ok ∧ ∃ hi lo id cs : UInt8,
    s.wire = startDel :: hi :: lo :: (tx64Body id m ++ [cs]) ∧
    2 ^ 8 * hi.toNat + lo.toNat = (tx64Body id m).length ∧
    byteSum (tx64Body id m ++ [cs]) = 0xFF

theorem tx64Body_length (id : UInt8) (m : Message) :
    (tx64Body id m).length = 11 + m.len.toNat := by
  simp only [tx64Body, int32bitToBuf, Message.payload, List.length_append, List.length_cons,
    List.length_nil, slice_length]

theorem send_emitted {x : XbeeState} (hx : x.initialized = true) {m : Message}
    (hm : m.len ≤ 20) : Emitted m (send x m) ∧ (send x m).xbee.initialized = true := by
  have hlen : m.len.toNat ≤ 20 := UInt8.le_iff_toNat_le.mp hm
  have hsum : (11 + m.len).toNat = 11 + m.len.toNat := by
    rw [UInt8.toNat_add, show (11 : UInt8).toNat = 11 from rfl]
    omega
  set id := (getFrameId x).rfFrameId with hid
  have hshape : tx64Frame id m.addrHi m.addrLo m.data m.len =
      startDel :: 0 :: (11 + m.len) :: tx64Body id m := by
    simp only [tx64Frame, tx64Body, Message.payload, List.cons_append, List.nil_append,
      List.append_assoc]
  have hshift : shift (ofList (startDel :: 0 :: (11 + m.len) :: tx64Body id m)) 3 =
      ofList (tx64Body id m) := by
    funext i
    rw [shift, ofList, ofList, Nat.add_comm]
    rfl
  have hsend : send x m = ⟨.ok, getFrameId x, m.frameId.map fun _ => id,
      startDel :: 0 :: (11 + m.len) :: (tx64Body id m ++
        [checksum (ofList (tx64Body id m)) (tx64Body id m).length])⟩ := by
    have hnot : ¬ 20 < m.len := by simpa using hm
    simp only [send, xbeeSend, hx, if_true, apiTx64, if_neg hnot, ← hid, hshape, hshift, hsum,
      tx64Body_length, List.cons_append]
  rw [hsend]
  refine ⟨⟨rfl, 0, 11 + m.len, id, _, rfl, ?_, checksum_closes _⟩, hx⟩
  rw [hsum, tx64Body_length, show (0 : UInt8).toNat = 0 from rfl, Nat.mul_zero, Nat.zero_add]

theorem send_run_emitted {x : XbeeState} (hx : x.initialized = true) (ms : List Message)
    (hms : ∀ m ∈ ms, m.len ≤ 20) : List.Forall₂ Emitted ms (outputs sendStep x ms) := by
  induction ms generalizing x with
  | nil => exact List.Forall₂.nil
  | cons m ms ih =>
    obtain ⟨hsent, hup⟩ := send_emitted hx (hms m List.mem_cons_self)
    exact List.Forall₂.cons hsent (ih hup fun n hn => hms n (List.mem_cons_of_mem m hn))

theorem send_error_iff (x : XbeeState) (m : Message) :
    (send x m).err ≠ .ok ↔ x.initialized = false ∨ 20 < m.len := by
  cases hx : x.initialized with
  | false => simp [send, xbeeSend, hx]
  | true =>
    by_cases hm : 20 < m.len
    · simp [send, xbeeSend, hx, apiTx64, hm]
    · simp [send, xbeeSend, hx, apiTx64, hm]

theorem send_error_silent {x : XbeeState} {m : Message} (h : (send x m).err ≠ .ok) :
    (send x m).wire = [] ∧ (send x m).xbee = x ∧ (send x m).frameId = m.frameId := by
  rcases (send_error_iff x m).mp h with hx | hm
  · simp [send, xbeeSend, hx]
  · cases hx : x.initialized with
    | false => simp [send, xbeeSend, hx]
    | true => simp [send, xbeeSend, hx, apiTx64, hm]

def rx64Body (srcHi srcLo : UInt32) (rssi options : UInt8) (payload : List UInt8) : List UInt8 :=
  [apiIdRx64] ++ int32bitToBuf srcHi ++ int32bitToBuf srcLo ++ [rssi, options] ++ payload

def apiFrame (body : List UInt8) : List UInt8 :=
  startDel :: UInt8.ofNat (body.length / 2 ^ 8) :: UInt8.ofNat body.length ::
    (body ++ [checksum (ofList body) body.length])

/-- The payload bytes of a TX-64 frame: what stands between its fourteen leading bytes and
its checksum. -/
def tx64Payload (wire : List UInt8) : List UInt8 := (wire.drop 14).dropLast

inductive Relayed (srcHi srcLo : UInt32) :
    List (List UInt8) → List (UInt8 × UInt8) → List UInt8 → Prop
  | quiet {noise : List UInt8} (hnoise : ∀ b ∈ noise, b ≠ startDel) :
      Relayed srcHi srcLo [] [] noise
  | hop {noise : List UInt8} (hnoise : ∀ b ∈ noise, b ≠ startDel) {wire : List UInt8}
      {rssi options : UInt8} {wires : List (List UInt8)} {hops : List (UInt8 × UInt8)}
      {stream : List UInt8} (hrest : Relayed srcHi srcLo wires hops stream) :
      Relayed srcHi srcLo (wire :: wires) ((rssi, options) :: hops)
        (noise ++ apiFrame (rx64Body srcHi srcLo rssi options (tx64Payload wire)) ++ stream)

structure Reception where
  addrHi : UInt32
  addrLo : UInt32
  rssi : UInt8
  payload : List UInt8
  deriving DecidableEq

def received : Event → Option Reception
  | .data addrHi addrLo rssi buf len => some ⟨addrHi, addrLo, rssi, slice buf len.toNat⟩
  | _ => none

theorem tx64Payload_emitted {m : Message} {s : Sent} (h : Emitted m s) :
    tx64Payload s.wire = m.payload := by
  obtain ⟨-, hi, lo, id, cs, hwire, -⟩ := h
  rw [hwire, tx64Payload]
  simp only [tx64Body, int32bitToBuf, List.cons_append, List.nil_append, List.drop_succ_cons,
    List.drop_zero, List.dropLast_concat]

theorem rx64Body_length (srcHi srcLo : UInt32) (rssi options : UInt8) (payload : List UInt8) :
    (rx64Body srcHi srcLo rssi options payload).length = 11 + payload.length := by
  simp only [rx64Body, int32bitToBuf, List.length_append, List.length_cons, List.length_nil]

theorem processFrame_rx64 {x : XbeeState} (hcb : x.cb.data = true) {srcHi srcLo : UInt32}
    {rssi options cs : UInt8} {payload : List UInt8} {buf : ℕ → UInt8} {len : ℕ}
    (hlen : len = 12 + payload.length) (hshort : payload.length < 2 ^ 8)
    (hbuf : slice buf len = rx64Body srcHi srcLo rssi options payload ++ [cs])
    (hsum : byteSum (slice buf len) = 0xFF) :
    (processFrame x buf len).1 = x ∧
      (processFrame x buf len).2.filterMap received = [⟨srcHi, srcLo, rssi, payload⟩] := by
  have hsize : (rx64Body srcHi srcLo rssi options payload ++ [cs]).length = len := by
    simp only [List.length_append, rx64Body_length, List.length_singleton, hlen]
    omega
  have hat (i : ℕ) (b : UInt8)
      (hb : (rx64Body srcHi srcLo rssi options payload ++ [cs])[i]? = some b) : buf i = b :=
    apply_of_slice (by rw [hsize, hbuf]) hb
  have hid : buf 0 = apiIdRx64 := hat 0 _ rfl
  have hrssi : buf 9 = rssi := hat 9 _ rfl
  have hsrcHi : bufTo32bitInt (shift buf 1) = srcHi := by
    apply bufTo32bitInt_int32bitToBuf
    apply slice_middle (l := [apiIdRx64]) (m := int32bitToBuf srcHi)
      (r := int32bitToBuf srcLo ++ [rssi, options] ++ payload ++ [cs])
    simpa only [rx64Body, List.append_assoc, ← hsize] using hbuf
  have hsrcLo : bufTo32bitInt (shift buf 5) = srcLo := by
    apply bufTo32bitInt_int32bitToBuf
    apply slice_middle (l := [apiIdRx64] ++ int32bitToBuf srcHi) (m := int32bitToBuf srcLo)
      (r := [rssi, options] ++ payload ++ [cs])
    simpa only [rx64Body, List.append_assoc, ← hsize] using hbuf
  have hpayload : slice (shift buf 11) payload.length = payload := by
    apply slice_middle (l := [apiIdRx64] ++ int32bitToBuf srcHi ++ int32bitToBuf srcLo ++
      [rssi, options]) (m := payload) (r := [cs])
    simpa only [rx64Body, List.append_assoc, ← hsize] using hbuf
  have hrest : len - 11 - 1 = payload.length := by omega
  have hcs : checksum buf len = 0 := (checksum_eq_zero_iff buf len).mpr hsum
  have hrun : processFrame x buf len =
      (x, [.data srcHi srcLo rssi (shift buf 11) (UInt8.ofNat payload.length)]) := by
    rw [processFrame, if_neg (by omega), if_neg (by simp [hcs]), dispatch, hid,
      if_neg (by decide), if_neg (by decide), if_pos rfl, if_neg (by omega), hsrcHi, hsrcLo, hrssi,
      hrest, processData, if_pos hcb]
  rw [hrun]
  refine ⟨rfl, ?_⟩
  simp only [List.filterMap_cons, List.filterMap_nil, received, UInt8.toNat_ofNat',
    Nat.mod_eq_of_lt hshort, hpayload]

def Listening (x : XbeeState) : Prop := x.rfState = .frame ∧ x.cb.data = true

theorem stores_not_received (n : ℕ) :
    ((List.range n).map Event.store).filterMap received = [] := by
  simp [List.filterMap_eq_nil_iff, received]

theorem receive_apiFrame {x : XbeeState} (hx : x.rfState = .frame) {body : List UInt8}
    (hlen : body.length ≤ bufSz) {bs : List (UInt8 × UInt32)}
    (hbs : bs.map Prod.fst = apiFrame body) :
    ∃ y : XbeeState, y.rfState = .frame ∧ y.cb = x.cb ∧
      slice y.rfBuf (body.length + 1) = body ++ [checksum (ofList body) body.length] ∧
      after byteStep x bs = (processFrame y y.rfBuf (body.length + 1)).1 ∧
      outputs byteStep x bs = (List.range (body.length + 1)).map .store ++
        .frame (body.length + 1) :: (processFrame y y.rfBuf (body.length + 1)).2 := by
  have hsz : bufSz = 200 := rfl
  obtain ⟨⟨_, t₀⟩, bs₁, rfl, rfl, hbs₁⟩ := List.map_eq_cons_iff.mp hbs
  obtain ⟨⟨_, t₁⟩, bs₂, rfl, rfl, hbs₂⟩ := List.map_eq_cons_iff.mp hbs₁
  obtain ⟨⟨_, t₂⟩, tail, rfl, rfl, htail⟩ := List.map_eq_cons_iff.mp hbs₂
  have hcount : tail.length = body.length + 1 := by
    rw [← List.length_map Prod.fst, htail, List.length_append, List.length_singleton]
  obtain ⟨ha, ho⟩ := feed_header hx (UInt8.ofNat (body.length / 2 ^ 8)) (UInt8.ofNat body.length)
    t₀ t₁ t₂
  set y := after byteStep x [_, _, _] with hy
  have hdeclared : y.rfFrameLen.toNat = body.length := by
    rw [ha, clamp_toNat, word16_toNat, UInt8.toNat_ofNat', UInt8.toNat_ofNat']
    omega
  obtain ⟨hframe, hout⟩ := feed_frame (x := y) (by rw [ha]) (by omega) (by rw [ha]) tail (by omega)
  have hread := slice_fill y.rfBuf 0 (tail.map Prod.fst)
  rw [List.length_map, Nat.zero_add, slice_zero, List.nil_append, htail, hcount] at hread
  have hsplit : (startDel, t₀) :: (UInt8.ofNat (body.length / 2 ^ 8), t₁) ::
      (UInt8.ofNat body.length, t₂) :: tail =
      [(startDel, t₀), (UInt8.ofNat (body.length / 2 ^ 8), t₁), (UInt8.ofNat body.length, t₂)] ++
        tail := rfl
  rw [hsplit, after_append, outputs_append, ← hy, ho, List.nil_append]
  rw [htail, hcount] at hframe hout
  exact ⟨framed y (body ++ [checksum (ofList body) body.length]), rfl, by rw [framed, ha], hread,
    hframe, hout⟩

theorem receive_rx64 {x : XbeeState} (hx : Listening x) (srcHi srcLo : UInt32)
    (rssi options : UInt8) {payload : List UInt8} (hp : payload.length ≤ 20)
    {bs : List (UInt8 × UInt32)}
    (hbs : bs.map Prod.fst = apiFrame (rx64Body srcHi srcLo rssi options payload)) :
    Listening (after byteStep x bs) ∧
      (outputs byteStep x bs).filterMap received = [⟨srcHi, srcLo, rssi, payload⟩] := by
  have hlen := rx64Body_length srcHi srcLo rssi options payload
  obtain ⟨y, hstate, hcb, hread, ha, ho⟩ := receive_apiFrame hx.1
    (by rw [hlen, show bufSz = 200 from rfl]; omega) hbs
  obtain ⟨hkeep, hdata⟩ := processFrame_rx64 (x := y) (hcb ▸ hx.2) (by omega) (by omega) hread
    (by rw [hread]; exact checksum_closes _)
  rw [ha, ho, hkeep]
  refine ⟨⟨hstate, hcb ▸ hx.2⟩, ?_⟩
  rw [List.filterMap_append, stores_not_received, List.nil_append, List.filterMap_cons]
  exact hdata

def delivered (srcHi srcLo : UInt32) (wire : List UInt8) (hop : UInt8 × UInt8) : Reception :=
  ⟨srcHi, srcLo, hop.1, tx64Payload wire⟩

theorem receive_relayed {srcHi srcLo : UInt32} {wires : List (List UInt8)}
    {hops : List (UInt8 × UInt8)} {stream : List UInt8}
    (hrel : Relayed srcHi srcLo wires hops stream)
    (hwires : ∀ w ∈ wires, (tx64Payload w).length ≤ 20)
    {x : XbeeState} (hx : Listening x) {bs : List (UInt8 × UInt32)}
    (hbs : bs.map Prod.fst = stream) :
    (outputs byteStep x bs).filterMap received =
      List.zipWith (delivered srcHi srcLo) wires hops := by
  have hquiet {noise : List (UInt8 × UInt32)} (hn : ∀ b ∈ noise.map Prod.fst, b ≠ startDel) :=
    run_noise hx.1 noise fun b hb => hn b.1 (List.mem_map_of_mem hb)
  induction hrel generalizing x bs with
  | quiet hnoise =>
    subst hbs
    rw [(hquiet hnoise).2]
    rfl
  | hop hnoise hrest ih =>
    obtain ⟨front, tail, rfl, hfront, htail⟩ := List.map_eq_append_iff.mp hbs
    obtain ⟨noise, frame, rfl, rfl, hframe⟩ := List.map_eq_append_iff.mp hfront
    obtain ⟨ha, ho⟩ := hquiet hnoise
    obtain ⟨hlisten, hdata⟩ := receive_rx64 hx _ _ _ _ (hwires _ List.mem_cons_self) hframe
    rw [outputs_append, outputs_append, after_append, ha, ho, List.nil_append,
      List.filterMap_append, hdata,
      ih (fun w hw => hwires w (List.mem_cons_of_mem _ hw)) hlisten htail fun hn =>
        run_noise hlisten.1 _ fun b hb => hn b.1 (List.mem_map_of_mem hb)]
    rfl

theorem relayed_payloads {ms : List Message} {sents : List Sent}
    (h : List.Forall₂ Emitted ms sents) (srcHi srcLo : UInt32) (hops : List (UInt8 × UInt8)) :
    List.zipWith (delivered srcHi srcLo) (sents.map Sent.wire) hops =
      List.zipWith (fun m hop => ⟨srcHi, srcLo, hop.1, m.payload⟩) ms hops := by
  induction h generalizing hops with
  | nil => rfl
  | cons hsent _ ih =>
    cases hops with
    | nil => rfl
    | cons hop hops =>
      simp only [List.map_cons, List.zipWith_cons_cons, ih hops, delivered,
        tx64Payload_emitted hsent]

theorem emitted_payload_length {ms : List Message} {sents : List Sent}
    (h : List.Forall₂ Emitted ms sents) (hms : ∀ m ∈ ms, m.len ≤ 20) :
    ∀ w ∈ sents.map Sent.wire, (tx64Payload w).length ≤ 20 := by
  induction h with
  | nil => simp
  | cons hsent _ ih =>
    simp only [List.map_cons, List.forall_mem_cons] at hms ⊢
    refine ⟨?_, ih hms.2⟩
    rw [tx64Payload_emitted hsent, Message.payload, slice_length]
    exact UInt8.le_iff_toNat_le.mp hms.1

theorem relayed_length {srcHi srcLo : UInt32} {wires : List (List UInt8)}
    {hops : List (UInt8 × UInt8)} {stream : List UInt8}
    (h : Relayed srcHi srcLo wires hops stream) : hops.length = wires.length := by
  induction h with
  | quiet _ => rfl
  | hop _ _ ih => exact congrArg (· + 1) ih

/-- Every accepted message is emitted as one frame and, relayed by the modules, reaches the
data callback once and in order; a refused call emits nothing and keeps the frame ids. -/
theorem radio_link_round_trip :
    (∀ (x : XbeeState) (ms : List Message), x.initialized = true → (∀ m ∈ ms, m.len ≤ 20) →
      List.Forall₂ Emitted ms (outputs sendStep x ms) ∧
      ∀ (srcHi srcLo : UInt32) (hops : List (UInt8 × UInt8)) (stream : List UInt8),
        Relayed srcHi srcLo ((outputs sendStep x ms).map Sent.wire) hops stream →
        ∀ y : XbeeState, y.rfState = .frame → y.cb.data = true →
        ∀ bs : List (UInt8 × UInt32), bs.map Prod.fst = stream →
          hops.length = ms.length ∧
          (outputs byteStep y bs).filterMap received =
            List.zipWith (fun m hop => ⟨srcHi, srcLo, hop.1, m.payload⟩) ms hops) ∧
    ∀ (x : XbeeState) (m : Message),
      ((send x m).err ≠ .ok ↔ x.initialized = false ∨ 20 < m.len) ∧
      ((send x m).err ≠ .ok → (send x m).wire = [] ∧
        (send x m).xbee.rfFrameId = x.rfFrameId ∧ (send x m).frameId = m.frameId) := by
  constructor
  · intro x ms hx hms
    have hsent := send_run_emitted hx ms hms
    refine ⟨hsent, fun srcHi srcLo hops stream hrel y hy hcb bs hbs => ?_⟩
    refine ⟨?_, ?_⟩
    · rw [relayed_length hrel, List.length_map, hsent.length_eq]
    · rw [receive_relayed hrel (emitted_payload_length hsent hms) ⟨hy, hcb⟩ hbs,
        relayed_payloads hsent]
  · intro x m
    refine ⟨send_error_iff x m, fun h => ?_⟩
    obtain ⟨hwire, hx, hid⟩ := send_error_silent h
    exact ⟨hwire, by rw [hx], hid⟩

def upState : XbeeState := { start ⟨true, true, true, true⟩ true with initialized := true }

def twoMessages : List Message :=
  [⟨0x13A200, 0x40A1B2C3, ofList [0x7E, 1], 2, some 0⟩, ⟨0, 0xFFFF, ofList [], 0, none⟩]

def twoFrames : List UInt8 :=
  [0x55] ++ apiFrame (rx64Body 0x13A200 7 40 0 [0x7E, 1]) ++
    ([] ++ apiFrame (rx64Body 0x13A200 7 41 2 []) ++ [0, 0xFF])

theorem radio_link_two_messages :
    (outputs byteStep upState (twoFrames.map fun b => (b, 0))).filterMap received =
      [⟨0x13A200, 7, 40, [0x7E, 1]⟩, ⟨0x13A200, 7, 41, []⟩] := by
  have hsend := radio_link_round_trip.1 upState twoMessages rfl (by decide)
  have hrel : Relayed 0x13A200 7 ((outputs sendStep upState twoMessages).map Sent.wire)
      [(40, 0), (41, 2)] twoFrames :=
    .hop (by simp [startDel]) (.hop (by simp) (.quiet (by simp [startDel])))
  exact (hsend.2 _ _ _ _ hrel upState rfl rfl (twoFrames.map fun b => (b, 0))
    (by simp [Function.comp_def])).2

end AoaBoard.Xbee
