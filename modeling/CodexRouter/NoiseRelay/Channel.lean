import CodexRouter.Lib.Run
import CodexRouter.NoiseRelay.Ordering

set_option autoImplicit false

/-! # The channel over an untrusted relay

Both ends of the Noise relay: the writer of `executor_stream.rs` and of `harness.rs` frames
messages, cuts them into records and encrypts these one after another; `receive_data` of either
puts the frames in order, decrypts them and hands complete messages to the application through a
bounded queue. The relay may do with the frames what it likes.

The cipher is an argument. It has a position on each side, which counts its records. Frames that
carry no data are left out: they are ignored, or they end the stream.
-/

namespace CodexRouter.NoiseRelay

open Lib

structure RelayData where
  seq : Nat
  payload : Bytes
  deriving DecidableEq

structure Cipher where
  encrypt : Nat → Bytes → Bytes
  decrypt : Nat → Bytes → Except String Bytes

/-! ## Sending -/

/-- `take_next_sequence`. -/
def takeNextSequence (nextSeq : Nat) : Except RelayError (Nat × Nat) :=
  if nextSeq + 1 < 2 ^ 32 then .ok (nextSeq, nextSeq + 1)
  else .error (.protocol "Noise relay sequence number exhausted")

/-- The records of one message. The cipher counts them as the sequence numbers do. -/
def sendRecords (cipher : Cipher) :
    List Bytes → Nat → Except RelayError (List RelayData × Nat)
  | [], nextSeq => .ok ([], nextSeq)
  | record :: records, nextSeq => do
      let (seq, nextSeq) ← takeNextSequence nextSeq
      let (frames, nextSeq) ← sendRecords cipher records nextSeq
      return (⟨seq, cipher.encrypt seq record⟩ :: frames, nextSeq)

/-- The writer: the frames of all messages, and the next sequence number. -/
def sendMessages (cipher : Cipher) :
    List Bytes → Nat → Except RelayError (List RelayData × Nat)
  | [], nextSeq => .ok ([], nextSeq)
  | message :: messages, nextSeq => do
      let framed ← frameMessage message
      let (frames, nextSeq) ← sendRecords cipher (chunks NOISE_RECORD_PLAINTEXT_LEN framed) nextSeq
      let (later, nextSeq) ← sendMessages cipher messages nextSeq
      return (frames ++ later, nextSeq)

/-! ## Receiving -/

def CHANNEL_CAPACITY : Nat := 128

inductive Side
  | executor
  | harness

/-- What the application has done by the time a message is handed over: the executor hands it over
at once, the harness waits for room up to a deadline. -/
structure Move where
  takes : Nat
  closes : Bool

structure Receiver (M : Type) where
  inboundCiphertexts : OrderedCiphertextFrames
  /-- The receive position of the cipher. -/
  position : Nat
  buffered : Bytes
  /-- How many messages wait in the queue, and whether the application has closed it. -/
  waiting : Nat
  closed : Bool
  /-- All messages that ever went into the queue. -/
  delivered : List M

def Receiver.default (M : Type) : Receiver M := ⟨.default, 0, [], 0, false, []⟩

section Receiving

variable {M : Type} (cipher : Cipher) (decode : Bytes → Option M) (application : Nat → Move)
  (side : Side)

def refusal : Side → RelayError
  | .executor => .protocol "Noise virtual stream inbound queue is full or closed"
  | .harness => .closed

/-- `try_send`, and `send` with its deadline. -/
def handOver (message : M) (r : Receiver M) : Receiver M × Option RelayError :=
  let move := application r.delivered.length
  let r := { r with waiting := r.waiting - move.takes, closed := r.closed || move.closes }
  if r.closed ∨ CHANNEL_CAPACITY ≤ r.waiting then (r, some (refusal side))
  else ({ r with waiting := r.waiting + 1, delivered := r.delivered ++ [message] }, none)

/-- The executor decodes and hands over one message after the other. -/
def decodeAndHandOver : List Bytes → Receiver M → Receiver M × Option RelayError
  | [], r => (r, none)
  | message :: messages, r =>
    match decode message with
    | none => (r, some .json)
    | some incoming =>
      match handOver application side incoming r with
      | (r, some error) => (r, some error)
      | (r, none) => decodeAndHandOver messages r

def handOverAll : List M → Receiver M → Receiver M × Option RelayError
  | [], r => (r, none)
  | message :: messages, r =>
    match handOver application side message r with
    | (r, some error) => (r, some error)
    | (r, none) => handOverAll messages r

/-- The harness decodes all messages of a record first. -/
def deliver (messages : List Bytes) (r : Receiver M) : Receiver M × Option RelayError :=
  match side with
  | .executor => decodeAndHandOver decode application .executor messages r
  | .harness =>
    match messages.mapM decode with
    | none => (r, some .json)
    | some messages => handOverAll application .harness messages r

/-- The loop of `receive_data` over the ciphertexts that are ready. -/
def receiveEach : List Bytes → Receiver M → Receiver M × Option RelayError
  | [], r => (r, none)
  | ciphertext :: ciphertexts, r =>
    match cipher.decrypt r.position ciphertext with
    | .error error => (r, some (.protocol ("Noise relay decryption failed: " ++ error)))
    | .ok plaintext =>
      match decoderPush r.buffered plaintext with
      | .error error => ({ r with position := r.position + 1 }, some error)
      | .ok (messages, buffered) =>
        match deliver decode application side messages
          { r with position := r.position + 1, buffered := buffered } with
        | (r, some error) => (r, some error)
        | (r, none) => receiveEach ciphertexts r

def receiveData (data : RelayData) (r : Receiver M) : Receiver M × Option RelayError :=
  match r.inboundCiphertexts.push data.seq data.payload with
  | .error error => (r, some error)
  | .ok (ready, inboundCiphertexts) =>
    receiveEach cipher decode application side ready
      { r with inboundCiphertexts := inboundCiphertexts }

/-- A stream, and the error that ended it. -/
structure Stream (M : Type) where
  receiver : Receiver M
  failed : Option RelayError

def Stream.init (M : Type) : Stream M := ⟨.default M, none⟩

/-- A frame arrives. A stream that has failed takes none. -/
def step (s : Stream M) (data : RelayData) : Option (Stream M) :=
  match s.failed with
  | some _ => some s
  | none =>
    let (receiver, failed) := receiveData cipher decode application side data s.receiver
    some ⟨receiver, failed⟩

end Receiving

/-! ## What is sent -/

/-- The records that carry these messages. -/
def records (messages : List Bytes) : List Bytes :=
  messages.flatMap fun m => chunks NOISE_RECORD_PLAINTEXT_LEN (framed m)

/-- What the cipher makes of records from a position on. -/
def framesFrom (cipher : Cipher) (position : Nat) (records : List Bytes) : List RelayData :=
  records.mapIdx fun k record => ⟨position + k, cipher.encrypt (position + k) record⟩

theorem framesFrom_append (cipher : Cipher) (position : Nat) (records records' : List Bytes) :
    framesFrom cipher position (records ++ records')
      = framesFrom cipher position records
        ++ framesFrom cipher (position + records.length) records' := by
  simp [framesFrom, List.mapIdx_append, Nat.add_assoc, Nat.add_comm records.length]

/-- The ciphertexts of all records. -/
def sentCiphertexts (cipher : Cipher) (records : List Bytes) : List Bytes :=
  (framesFrom cipher 0 records).map RelayData.payload

theorem length_sentCiphertexts (cipher : Cipher) (records : List Bytes) :
    (sentCiphertexts cipher records).length = records.length := by
  simp [sentCiphertexts, framesFrom]

theorem getElem?_framesFrom (cipher : Cipher) (records : List Bytes) (k : Nat) :
    (framesFrom cipher 0 records)[k]? = records[k]?.map fun r => ⟨k, cipher.encrypt k r⟩ := by
  simp [framesFrom]

theorem getElem?_sentCiphertexts (cipher : Cipher) (records : List Bytes) (k : Nat) :
    (sentCiphertexts cipher records)[k]? = records[k]?.map (cipher.encrypt k) := by
  rw [sentCiphertexts, List.getElem?_map, getElem?_framesFrom, Option.map_map]
  rfl

variable {M : Type} {cipher : Cipher} {decode : Bytes → Option M} {application : Nat → Move}
  {side : Side} {messages : List Bytes}

section Sending

variable {nextSeq : Nat} {frames : List RelayData}

/-- The frames of these records were sent, and there was a sequence number for each. -/
structure Sent (cipher : Cipher) (nextSeq : Nat) (records : List Bytes)
    (sent : List RelayData × Nat) : Prop where
  frames : sent.1 = framesFrom cipher nextSeq records
  next : sent.2 = nextSeq + records.length
  bound : nextSeq < 2 ^ 32 → sent.2 < 2 ^ 32

theorem Sent.append {records records' : List Bytes} {sent sent' : List RelayData × Nat}
    (h : Sent cipher nextSeq records sent) (h' : Sent cipher sent.2 records' sent') :
    Sent cipher nextSeq (records ++ records') (sent.1 ++ sent'.1, sent'.2) where
  frames := by rw [framesFrom_append, h.frames, h'.frames, h.next]
  next := by rw [h'.next, h.next, List.length_append, Nat.add_assoc]
  bound := h'.bound ∘ h.bound

theorem sendRecords_eq_ok {records : List Bytes} {sent : List RelayData × Nat}
    (h : sendRecords cipher records nextSeq = .ok sent) : Sent cipher nextSeq records sent := by
  induction records generalizing nextSeq sent with
  | nil =>
    cases h
    exact ⟨rfl, rfl, id⟩
  | cons record records ih =>
    obtain ⟨⟨seq, next⟩, hseq, h⟩ := bind_eq_ok_iff.mp h
    obtain ⟨later, hlater, h⟩ := bind_eq_ok_iff.mp h
    cases h
    unfold takeNextSequence at hseq
    split at hseq
    · next hnext =>
      cases hseq
      have hfirst : Sent cipher nextSeq [record]
          ([⟨nextSeq, cipher.encrypt nextSeq record⟩], nextSeq + 1) := ⟨rfl, rfl, fun _ => hnext⟩
      exact hfirst.append (ih hlater)
    · cases hseq

/-- All messages are sent: they are valid, and the frames are those of their records. -/
theorem sendMessages_eq_ok {sent : List RelayData × Nat}
    (h : sendMessages cipher messages nextSeq = .ok sent) :
    (∀ m ∈ messages, ValidMessage m) ∧ Sent cipher nextSeq (records messages) sent := by
  induction messages generalizing nextSeq sent with
  | nil =>
    cases h
    exact ⟨by simp, rfl, rfl, id⟩
  | cons m messages ih =>
    obtain ⟨frame, hframe, h⟩ := bind_eq_ok_iff.mp h
    obtain ⟨first, hfirst, h⟩ := bind_eq_ok_iff.mp h
    obtain ⟨later, hlater, h⟩ := bind_eq_ok_iff.mp h
    cases h
    obtain ⟨hm, rfl⟩ := frameMessage_eq_ok.mp hframe
    obtain ⟨hvalid, hsent⟩ := ih hlater
    exact ⟨List.forall_mem_cons.mpr ⟨hm, hvalid⟩, (sendRecords_eq_ok hfirst).append hsent⟩

end Sending

theorem flatten_records (messages : List Bytes) : (records messages).flatten = stream messages := by
  induction messages with
  | nil => rfl
  | cons m messages ih =>
    have hpos : 0 < NOISE_RECORD_PLAINTEXT_LEN := by decide
    have hchunks := (chunksFrom_spec hpos (le_refl (framed m).length)).1
    rw [stream_cons, ← ih, ← hchunks]
    simp [records, chunks]

theorem length_of_mem_records {record : Bytes} (h : record ∈ records messages) :
    record.length ≤ NOISE_RECORD_PLAINTEXT_LEN := by
  obtain ⟨m, -, hrecord⟩ := List.mem_flatMap.mp h
  exact (chunksFrom_spec (by decide) (le_refl _)).2 record hrecord

/-! ## What is handed over -/

/-- A queue that takes no message. -/
def Receiver.Stuck (r : Receiver M) : Prop := r.closed = true ∨ CHANNEL_CAPACITY ≤ r.waiting

/-- What handing over these messages does to the queue alone: a first part of them, decoded, goes
into it, all of them unless there is an error, and an error is that of a message or of the
queue. -/
structure Delivered (decode : Bytes → Option M) (messages : List Bytes) (r r' : Receiver M)
    (error : Option RelayError) : Prop where
  queue : ∃ waiting closed sent, r' = { r with
      waiting := waiting, closed := closed, delivered := r.delivered ++ sent }
    ∧ sent.map some <+: messages.map decode
    ∧ (error = none → sent.map some = messages.map decode)
  blame : error ≠ none → r'.Stuck ∨ ∃ m ∈ messages, decode m = none

theorem delivered_none {r : Receiver M} (waiting : Nat) (closed : Bool)
    (error : RelayError) (h : Receiver.Stuck { r with waiting := waiting, closed := closed }
      ∨ ∃ m ∈ messages, decode m = none) :
    Delivered decode messages r { r with waiting := waiting, closed := closed } (some error) :=
  ⟨⟨waiting, closed, [], by simp, List.nil_prefix, nofun⟩, fun _ => h⟩

variable (application side) in
theorem handOver_cases (message : M) (r : Receiver M) :
    ∃ waiting closed,
      (Receiver.Stuck { r with waiting := waiting, closed := closed }
        ∧ handOver application side message r
          = ({ r with waiting := waiting, closed := closed }, some (refusal side)))
      ∨ handOver application side message r
          = ({ r with waiting := waiting, closed := closed, delivered := r.delivered ++ [message] },
            none) := by
  unfold handOver
  dsimp only
  split
  · next hstuck => exact ⟨_, _, Or.inl ⟨hstuck, rfl⟩⟩
  · exact ⟨_, _, Or.inr rfl⟩

theorem delivered_decodeAndHandOver (messages : List Bytes) (r : Receiver M) :
    Delivered decode messages r (decodeAndHandOver decode application side messages r).1
      (decodeAndHandOver decode application side messages r).2 := by
  induction messages generalizing r with
  | nil => exact ⟨⟨r.waiting, r.closed, [], by simp [decodeAndHandOver], by simp⟩, nofun⟩
  | cons message messages ih =>
    rw [decodeAndHandOver]
    cases hdecode : decode message with
    | none =>
      exact delivered_none r.waiting r.closed _
        (Or.inr ⟨message, List.mem_cons_self, hdecode⟩)
    | some incoming =>
      dsimp only
      obtain ⟨waiting, closed, ⟨hstuck, hhand⟩ | hhand⟩ :=
        handOver_cases application side incoming r
      · rw [hhand]
        exact delivered_none waiting closed _ (Or.inl hstuck)
      · rw [hhand]
        obtain ⟨⟨waiting', closed', sent, hqueue, hbegin, hall⟩, hblame⟩ := ih _
        refine ⟨⟨waiting', closed', incoming :: sent, ?_, ?_, fun h => ?_⟩, fun h => ?_⟩
        · rw [hqueue, List.append_assoc, List.singleton_append]
        · rw [List.map_cons, List.map_cons, hdecode]
          exact (List.prefix_cons_inj _).mpr hbegin
        · rw [List.map_cons, List.map_cons, hdecode, hall h]
        · exact (hblame h).imp_right fun ⟨m, hm, hnone⟩ =>
            ⟨m, List.mem_cons_of_mem message hm, hnone⟩

/-- Decoding first makes no difference when every message decodes. -/
theorem handOverAll_eq :
    ∀ (messages : List Bytes) (incoming : List M), messages.mapM decode = some incoming →
      ∀ r, handOverAll application side incoming r
        = decodeAndHandOver decode application side messages r := by
  intro messages
  induction messages with
  | nil =>
    intro incoming h r
    cases h
    rfl
  | cons message messages ih =>
    intro incoming h r
    rw [List.mapM_cons] at h
    obtain ⟨first, hfirst, h⟩ := Option.bind_eq_some_iff.mp h
    obtain ⟨rest, hrest, h⟩ := Option.bind_eq_some_iff.mp h
    cases h
    rw [handOverAll, decodeAndHandOver, hfirst]
    dsimp only
    generalize handOver application side first r = done
    obtain ⟨r', error⟩ := done
    cases error with
    | some error => rfl
    | none => exact ih rest hrest r'

theorem exists_decode_eq_none (h : messages.mapM decode = none) :
    ∃ m ∈ messages, decode m = none := by
  induction messages with
  | nil => cases h
  | cons message messages ih =>
    cases hdecode : decode message with
    | none => exact ⟨message, List.mem_cons_self, hdecode⟩
    | some incoming =>
      have hrest : messages.mapM decode = none := by
        cases hrest : messages.mapM decode with
        | none => rfl
        | some rest =>
          rw [List.mapM_cons, hdecode, hrest] at h
          cases h
      obtain ⟨m, hm, hnone⟩ := ih hrest
      exact ⟨m, List.mem_cons_of_mem message hm, hnone⟩

variable (decode application side) in
theorem delivered_deliver (messages : List Bytes) (r : Receiver M) :
    Delivered decode messages r (deliver decode application side messages r).1
      (deliver decode application side messages r).2 := by
  cases side with
  | executor => exact delivered_decodeAndHandOver messages r
  | harness =>
    unfold deliver
    cases hdecode : messages.mapM decode with
    | none =>
      exact delivered_none r.waiting r.closed _ (Or.inr (exists_decode_eq_none hdecode))
    | some incoming =>
      dsimp only
      rw [handOverAll_eq messages incoming hdecode]
      exact delivered_decodeAndHandOver messages r

/-! ## What is received -/

section Received

/-- At each position only the record sent there is accepted, and it is accepted. -/
structure Authentic (cipher : Cipher) (sent : List Bytes) : Prop where
  only : ∀ k c p, cipher.decrypt k c = .ok p →
    ∃ record, sent[k]? = some record ∧ c = cipher.encrypt k record
  correct : ∀ k record, sent[k]? = some record →
    cipher.decrypt k (cipher.encrypt k record) = .ok record

variable {c : Bytes} {r : Receiver M}

theorem Authentic.record {sent : List Bytes} (h : Authentic cipher sent) {k : Nat} {p : Bytes}
    (hc : cipher.decrypt k c = .ok p) : sent[k]? = some p := by
  obtain ⟨record, hrecord, rfl⟩ := h.only k c p hc
  rw [h.correct k record hrecord] at hc
  cases hc
  exact hrecord

/-- The first of the ciphertexts from a position on is the one that is accepted there. -/
theorem decrypt_of_genuine {sent : List Bytes} (h : Authentic cipher sent) {k : Nat}
    {later : List Bytes} (hc : c :: later <+: (sentCiphertexts cipher sent).drop k) :
    ∃ record, cipher.decrypt k c = .ok record ∧
      later <+: (sentCiphertexts cipher sent).drop (k + 1) := by
  obtain ⟨rest, hrest⟩ := hc
  have hget : (sentCiphertexts cipher sent)[k]? = some c := by
    rw [← Nat.add_zero k, ← List.getElem?_drop, ← hrest]
    rfl
  have htail : (sentCiphertexts cipher sent).drop (k + 1) = later ++ rest := by
    rw [← List.tail_drop, ← hrest]
    rfl
  rw [getElem?_sentCiphertexts, Option.map_eq_some_iff] at hget
  obtain ⟨record, hrecord, rfl⟩ := hget
  exact ⟨record, h.correct k record hrecord, htail ▸ List.prefix_append later rest⟩

/-- The receiver is where the sender was: some messages are delivered, and what is buffered goes on
with the records still to come as the stream of the others. -/
structure InSync (decode : Bytes → Option M) (messages : List Bytes) (r : Receiver M) : Prop where
  split : ∃ done rest, messages = done ++ rest ∧ r.delivered.map some = done.map decode ∧
    r.buffered ++ ((records messages).drop r.position).flatten = stream rest ∧
    ∀ m rest', rest = m :: rest' → r.buffered.length < (framed m).length

theorem inSync_default (messages : List Bytes) : InSync decode messages (.default M) := by
  refine ⟨[], messages, rfl, rfl, flatten_records messages, fun m rest' _ => ?_⟩
  exact Nat.succ_pos _

/-- The receiver in sync has delivered a first part of the messages. -/
theorem InSync.delivered (h : InSync decode messages r) :
    r.delivered.map some <+: messages.map decode := by
  obtain ⟨done, rest, rfl, hdone, -⟩ := h.split
  rw [hdone, List.map_append]
  exact List.prefix_append _ _

/-- When all records have come, all messages are delivered. -/
theorem InSync.complete (h : InSync decode messages r)
    (hall : (records messages).length ≤ r.position) :
    r.delivered.map some = messages.map decode := by
  obtain ⟨done, rest, rfl, hdone, hstream, hshort⟩ := h.split
  rw [List.drop_eq_nil_of_le hall, List.flatten_nil, List.append_nil] at hstream
  cases rest with
  | nil => rw [hdone, List.append_nil]
  | cons m rest =>
    have hlt := hshort m rest rfl
    rw [hstream, stream_cons, List.length_append] at hlt
    omega

/-- What receiving ciphertexts that are ready does to a receiver in sync. -/
structure Received (decode : Bytes → Option M) (messages ciphertexts : List Bytes)
    (r r' : Receiver M) (error : Option RelayError) : Prop where
  inboundCiphertexts : r'.inboundCiphertexts = r.inboundCiphertexts
  delivered : r'.delivered.map some <+: messages.map decode
  inSync : error = none → InSync decode messages r' ∧
    r'.position = r.position + ciphertexts.length

variable (hvalid : ∀ m ∈ messages, ValidMessage m)
  (hauthentic : Authentic cipher (records messages))

include hvalid hauthentic

/-- One ciphertext that is accepted. -/
theorem receive_accepted (hsync : InSync decode messages r) {p : Bytes}
    (hc : cipher.decrypt r.position c = .ok p) :
    ∃ complete buffered, decoderPush r.buffered p = .ok (complete, buffered) ∧
      (∀ m ∈ complete, m ∈ messages) ∧
      ∀ r' error, Delivered decode complete
          { r with position := r.position + 1, buffered := buffered } r' error →
        r'.delivered.map some <+: messages.map decode ∧
          (error = none → InSync decode messages r') := by
  obtain ⟨done, rest, hmessages, hdone, hstream, -⟩ := hsync.split
  have hrecord := hauthentic.record hc
  have hlt := (List.getElem?_eq_some_iff.mp hrecord).1
  have hget := (List.getElem?_eq_some_iff.mp hrecord).2
  rw [List.drop_eq_getElem_cons hlt, hget, List.flatten_cons] at hstream
  have hshort : p.length ≤ NOISE_RECORD_PLAINTEXT_LEN :=
    length_of_mem_records (List.mem_of_getElem? hrecord)
  have hvalid' : ∀ m ∈ rest, ValidMessage m := fun m hm =>
    hvalid m (by rw [hmessages]; exact List.mem_append_right done hm)
  obtain ⟨complete, rest', buffered, rfl, hpush, hrest, hnext⟩ :=
    decoderPush_stream hvalid' hshort hstream
  refine ⟨complete, buffered, hpush, fun m hm => ?_, fun r' error hdelivered => ?_⟩
  · rw [hmessages]
    exact List.mem_append_right done (List.mem_append_left rest' hm)
  · obtain ⟨⟨waiting, closed, sent, rfl, hbegin, hall⟩, -⟩ := hdelivered
    have hmap : messages.map decode
        = done.map decode ++ (complete.map decode ++ rest'.map decode) := by
      rw [hmessages, List.map_append, List.map_append]
    refine ⟨?_, fun hnone => ?_⟩
    · rw [List.map_append, hdone, hmap]
      exact (List.prefix_append_right_inj _).mpr (hbegin.trans (List.prefix_append _ _))
    · refine ⟨done ++ complete, rest', ?_, ?_, hrest, hnext⟩
      · rw [hmessages, List.append_assoc]
      · rw [List.map_append, hdone, hall hnone, List.map_append]

variable (application side) in
/-- Ciphertexts that are ready, and genuine ones in their order fail only in the hands of the
application. -/
theorem receiveEach_received (ciphertexts : List Bytes) :
    ∀ r : Receiver M, InSync decode messages r →
      let done := receiveEach cipher decode application side ciphertexts r
      Received decode messages ciphertexts r done.1 done.2 ∧
        (ciphertexts <+: (sentCiphertexts cipher (records messages)).drop r.position →
          done.2 ≠ none → done.1.Stuck ∨ ∃ m ∈ messages, decode m = none) := by
  induction ciphertexts with
  | nil =>
    exact fun r hsync => ⟨⟨rfl, hsync.delivered, fun _ => ⟨hsync, rfl⟩⟩, fun _ h => absurd rfl h⟩
  | cons c ciphertexts ih =>
    intro r hsync
    have hgenuine := @decrypt_of_genuine cipher c _ hauthentic r.position ciphertexts
    rw [receiveEach]
    cases hc : cipher.decrypt r.position c with
    | error error =>
      refine ⟨⟨rfl, hsync.delivered, nofun⟩, fun h => ?_⟩
      obtain ⟨record, hrecord, -⟩ := hgenuine h
      rw [hc] at hrecord
      cases hrecord
    | ok p =>
      obtain ⟨complete, buffered, hpush, hmem, hdeliver⟩ :=
        receive_accepted hvalid hauthentic hsync hc
      dsimp only
      rw [hpush]
      dsimp only
      have hdelivered := delivered_deliver decode application side complete
        { r with position := r.position + 1, buffered := buffered }
      generalize deliver decode application side complete
        { r with position := r.position + 1, buffered := buffered } = done at hdelivered
      obtain ⟨r', error⟩ := done
      obtain ⟨hbegin, hinSync⟩ := hdeliver r' error hdelivered
      obtain ⟨waiting, closed, sent, rfl, -⟩ := hdelivered.queue
      cases error with
      | some error =>
        refine ⟨⟨rfl, hbegin, nofun⟩, fun _ _ => ?_⟩
        refine (hdelivered.blame (by simp)).imp_right fun ⟨m, hm, hnone⟩ => ?_
        exact ⟨m, hmem m hm, hnone⟩
      | none =>
        obtain ⟨⟨hframes, hbegin', hinSync'⟩, hblame⟩ := ih _ (hinSync rfl)
        refine ⟨⟨hframes, hbegin', fun h => ?_⟩, fun h => hblame ?_⟩
        · obtain ⟨hsync', hposition⟩ := hinSync' h
          refine ⟨hsync', hposition.trans ?_⟩
          rw [List.length_cons, Nat.add_assoc, Nat.add_comm 1]
        · obtain ⟨_, -, hlater⟩ := hgenuine h
          exact hlater

end Received

/-! ## Runs -/

section Runs

variable {s t : Stream M} {data : RelayData}

/-- A frame that arrives: the stream has failed before, or the frame is refused, or what is ready
is received. -/
theorem step_cases (h : step cipher decode application side s data = some t) :
    (s.failed ≠ none ∧ t = s) ∨ (s.failed = none ∧
      ((∃ error, s.receiver.inboundCiphertexts.push data.seq data.payload = .error error ∧
          t = ⟨s.receiver, some error⟩) ∨
        ∃ ready o, s.receiver.inboundCiphertexts.push data.seq data.payload = .ok (ready, o) ∧
          t = ⟨(receiveEach cipher decode application side ready
              { s.receiver with inboundCiphertexts := o }).1,
            (receiveEach cipher decode application side ready
              { s.receiver with inboundCiphertexts := o }).2⟩)) := by
  unfold step at h
  cases hfailed : s.failed with
  | some error => grind
  | none =>
    rw [hfailed] at h
    have ht := (Option.some.inj h).symm
    refine Or.inr ⟨rfl, ?_⟩
    cases hpush : s.receiver.inboundCiphertexts.push data.seq data.payload with
    | error error =>
      rw [hpush] at ht
      exact Or.inl ⟨error, rfl, ht⟩
    | ok pushed =>
      rw [hpush] at ht
      exact Or.inr ⟨pushed.1, pushed.2, rfl, ht⟩

/-- A stream that has not failed is in sync; one that has failed has delivered a first part. -/
structure Safe (decode : Bytes → Option M) (messages : List Bytes) (s : Stream M) : Prop where
  inSync : s.failed = none → InSync decode messages s.receiver
  delivered : s.receiver.delivered.map some <+: messages.map decode

theorem safe_init : Safe decode messages (.init M) :=
  ⟨fun _ => inSync_default messages, List.nil_prefix⟩

variable (hvalid : ∀ m ∈ messages, ValidMessage m)
  (hauthentic : Authentic cipher (records messages))

include hvalid hauthentic

theorem safe_step (h : Safe decode messages s)
    (ht : step cipher decode application side s data = some t) : Safe decode messages t := by
  rcases step_cases ht with ⟨-, rfl⟩ | ⟨hfailed, ⟨error, -, rfl⟩ | ⟨ready, o, -, rfl⟩⟩
  · exact h
  · exact ⟨fun hnone => (by cases hnone), h.delivered⟩
  · have hsync : InSync decode messages { s.receiver with inboundCiphertexts := o } :=
      ⟨(h.inSync hfailed).split⟩
    obtain ⟨⟨-, hbegin, hinSync⟩, -⟩ :=
      receiveEach_received application side hvalid hauthentic ready _ hsync
    exact ⟨fun hnone => (hinSync hnone).1, hbegin⟩

/-- The state of a stream to which only genuine frames came: it has failed in the hands of the
application, or the buffer holds what has arrived and the cipher is at the next frame. -/
structure Faithful (cipher : Cipher) (decode : Bytes → Option M) (messages : List Bytes)
    (arrived : List RelayData) (s : Stream M) : Prop where
  genuine : s.failed = none →
    s.receiver.inboundCiphertexts.Genuine (sentCiphertexts cipher (records messages)) ∧
      s.receiver.inboundCiphertexts.nextSeq = s.receiver.position ∧
      ∀ data ∈ arrived, s.receiver.inboundCiphertexts.Holds data.seq
  blame : s.failed ≠ none → s.receiver.Stuck ∨ ∃ m ∈ messages, decode m = none

omit hvalid hauthentic in
theorem faithful_init : Faithful cipher decode messages [] (.init M) :=
  ⟨fun _ => ⟨OrderedCiphertextFrames.genuine_default _, rfl, by simp⟩, fun h => absurd rfl h⟩

theorem faithful_step (hlen : (records messages).length < 2 ^ 32)
    {arrived : List RelayData} (hsafe : Safe decode messages s)
    (h : Faithful cipher decode messages arrived s)
    (hgenuine : (sentCiphertexts cipher (records messages))[data.seq]? = some data.payload)
    (hwindow : s.failed = none → s.receiver.inboundCiphertexts.InWindow data.seq data.payload)
    (ht : step cipher decode application side s data = some t) :
    Faithful cipher decode messages (arrived ++ [data]) t := by
  rcases step_cases ht with ⟨hfailed, rfl⟩ | ⟨hfailed, hcases⟩
  · exact ⟨fun hnone => absurd hnone hfailed, h.blame⟩
  · obtain ⟨hbuffer, hposition, harrived⟩ := h.genuine hfailed
    have hlen' : (sentCiphertexts cipher (records messages)).length < 2 ^ 32 := by
      rw [length_sentCiphertexts]
      exact hlen
    obtain ⟨ready, o, hpush, hreleased, hholds⟩ :=
      OrderedCiphertextFrames.push_genuine hlen' hbuffer hgenuine (hwindow hfailed)
    rw [hpush] at hcases
    obtain ⟨error, ⟨⟩, -⟩ | ⟨_, _, ⟨⟩, rfl⟩ := hcases
    have hsync : InSync decode messages { s.receiver with inboundCiphertexts := o } :=
      ⟨(hsafe.inSync hfailed).split⟩
    have hready : ready <+: (sentCiphertexts cipher (records messages)).drop
        s.receiver.position := by
      rw [← hposition]
      exact hreleased.ready
    obtain ⟨hreceived, hblame⟩ :=
      receiveEach_received application side hvalid hauthentic ready _ hsync
    refine ⟨fun hnone => ?_, hblame hready⟩
    obtain ⟨-, hnext⟩ := hreceived.inSync hnone
    rw [hreceived.inboundCiphertexts, hnext]
    refine ⟨hreleased.genuine, ?_, fun d hd => ?_⟩
    · show o.nextSeq = _
      rw [hreleased.next, hposition]
    · rcases List.mem_append.mp hd with hd | hd
      · exact hreleased.holds d.seq (harrived d hd)
      · rw [List.mem_singleton.mp hd]
        exact hholds

theorem safe_of_run {es : List RelayData}
    (hrun : run (step cipher decode application side) (.init M) es = some s) :
    Safe decode messages s :=
  run_invariant_of_step (fun _ _ _ h ht => safe_step hvalid hauthentic h ht) es _ _ safe_init hrun

theorem faithful_of_run (hlen : (records messages).length < 2 ^ 32)
    {es : List RelayData} (hrun : run (step cipher decode application side) (.init M) es = some s)
    (hgenuine : ∀ data ∈ es,
      (sentCiphertexts cipher (records messages))[data.seq]? = some data.payload)
    (hwindow : Along (step cipher decode application side) (fun s data => s.failed = none →
      s.receiver.inboundCiphertexts.InWindow data.seq data.payload) (.init M) es) :
    Faithful cipher decode messages es s := by
  -- over the frames that have come so far
  refine run_history (P := fun pre s => pre <+: es → Faithful cipher decode messages pre s)
    (fun _ => faithful_init) ?_ es s hrun (List.prefix_refl es)
  intro pre t data u ht h hu hpre
  have hbefore : pre <+: es := (List.prefix_append pre [data]).trans hpre
  have hmem : data ∈ es := hpre.subset (List.mem_append_right pre List.mem_cons_self)
  exact faithful_step hvalid hauthentic hlen (safe_of_run hvalid hauthentic ht) (h hbefore)
    (hgenuine data hmem) (along_iff.mp hwindow pre data t hpre ht) hu

end Runs

/-- **What the relay cannot change.** Whatever frames come, the messages handed to the application
are a first part of those sent, in their order. If only genuine frames come, each at least once and
within the window and the room of the reordering buffer, then all messages are handed over, unless
the application is to blame: its queue is full or closed, or it does not decode a message. -/
theorem relay_delivers_in_order {M : Type} (cipher : Cipher) (decode : Bytes → Option M)
    (application : Nat → Move) (side : Side) (messages : List Bytes) (frames : List RelayData)
    (nextSeq : Nat) (hsent : sendMessages cipher messages 0 = .ok (frames, nextSeq))
    (honly : ∀ k c p, cipher.decrypt k c = .ok p → ∃ frame, frames[k]? = some frame ∧
      c = frame.payload)
    (hcorrect : ∀ k record, (records messages)[k]? = some record →
      cipher.decrypt k (cipher.encrypt k record) = .ok record)
    (es : List RelayData) (s : Stream M)
    (hrun : run (step cipher decode application side) (.init M) es = some s) :
    s.receiver.delivered.map some <+: messages.map decode ∧
      ((∀ data ∈ es, data ∈ frames) → (∀ frame ∈ frames, frame ∈ es) →
        Along (step cipher decode application side) (fun s data => s.failed = none →
          s.receiver.inboundCiphertexts.InWindow data.seq data.payload) (.init M) es →
        (s.failed = none → s.receiver.delivered.map some = messages.map decode) ∧
        (s.failed ≠ none → (s.receiver.closed = true ∨ CHANNEL_CAPACITY ≤ s.receiver.waiting) ∨
          ∃ m ∈ messages, decode m = none)) := by
  obtain ⟨hvalid, hframes, hnext, hlt⟩ := sendMessages_eq_ok hsent
  obtain rfl : frames = framesFrom cipher 0 (records messages) := hframes
  have hauthentic : Authentic cipher (records messages) := by
    refine ⟨fun k c p hc => ?_, hcorrect⟩
    obtain ⟨frame, hframe, rfl⟩ := honly k c p hc
    rw [getElem?_framesFrom, Option.map_eq_some_iff] at hframe
    obtain ⟨record, hrecord, rfl⟩ := hframe
    exact ⟨record, hrecord, rfl⟩
  have hsafe := safe_of_run hvalid hauthentic hrun
  refine ⟨hsafe.delivered, fun honlyGenuine hall hwindow => ?_⟩
  have hgenuine : ∀ data ∈ es,
      (sentCiphertexts cipher (records messages))[data.seq]? = some data.payload := by
    intro data hdata
    obtain ⟨k, hk⟩ := List.mem_iff_getElem?.mp (honlyGenuine data hdata)
    rw [getElem?_framesFrom, Option.map_eq_some_iff] at hk
    obtain ⟨record, hrecord, rfl⟩ := hk
    rw [getElem?_sentCiphertexts, hrecord]
    rfl
  have hlen : (records messages).length < 2 ^ 32 := by
    rw [← Nat.zero_add (records messages).length, ← hnext]
    exact hlt (by decide)
  have hfaithful := faithful_of_run hvalid hauthentic hlen hrun hgenuine hwindow
  refine ⟨fun hnone => (hsafe.inSync hnone).complete ?_, hfaithful.blame⟩
  -- the next frame expected would have arrived if it had been sent
  obtain ⟨hbuffer, hposition, harrived⟩ := hfaithful.genuine hnone
  rw [← hposition]
  by_contra hmissing
  have hk : s.receiver.inboundCiphertexts.nextSeq < (records messages).length :=
    Nat.not_le.mp hmissing
  have hframe := getElem?_framesFrom cipher (records messages)
    s.receiver.inboundCiphertexts.nextSeq
  rw [List.getElem?_eq_getElem hk, Option.map_some] at hframe
  rcases harrived _ (hall _ (List.mem_of_getElem? hframe)) with hlt | hpending
  · exact absurd hlt (Nat.lt_irrefl _)
  · obtain ⟨c, hc⟩ := OrderedCiphertextFrames.contains_iff_exists.mp hpending
    exact absurd (hbuffer.pending _ c hc).1 (Nat.lt_irrefl _)

/-- A cipher that lets nothing but these records through, each at its position. -/
def exactCipher (sent : List Bytes) : Cipher where
  encrypt _ record := record
  decrypt k c := if sent[k]? = some c then .ok c else .error "authentication failed"

instance (o : OrderedCiphertextFrames) (k : Nat) : Decidable (o.Holds k) :=
  inferInstanceAs (Decidable (_ ∨ _))

instance (o : OrderedCiphertextFrames) (seq : Nat) (payload : Bytes) :
    Decidable (o.InWindow seq payload) :=
  inferInstanceAs (Decidable (_ ∧ (_ → _ → _)))

theorem exactCipher_only {sent : List Bytes} {k : Nat} {c p : Bytes}
    (h : (exactCipher sent).decrypt k c = .ok p) :
    ∃ frame, (framesFrom (exactCipher sent) 0 sent)[k]? = some frame ∧ c = frame.payload := by
  simp only [exactCipher] at h
  split at h
  · next hc => exact ⟨⟨k, c⟩, by rw [getElem?_framesFrom, hc]; rfl, rfl⟩
  · cases h

theorem exactCipher_correct {sent : List Bytes} {k : Nat} {record : Bytes}
    (h : sent[k]? = some record) :
    (exactCipher sent).decrypt k ((exactCipher sent).encrypt k record) = .ok record :=
  if_pos h

/-- Two messages; the frame of the second comes first, and both come twice. -/
theorem relay_delivers_in_order_swapped :
    let messages : List Bytes := [[1, 2], [3]]
    let cipher := exactCipher (records messages)
    let frames := framesFrom cipher 0 (records messages)
    let application : Nat → Move := fun _ => ⟨0, false⟩
    ∃ s : Stream Bytes,
      run (step cipher some application .executor) (.init Bytes) (frames.reverse ++ frames)
          = some s ∧
        s.failed = none ∧ s.receiver.delivered.map some = messages.map some := by
  intro messages cipher frames application
  have hsent : sendMessages cipher messages 0 = .ok (frames, 2) := by decide +kernel
  have hdone : ((run (step cipher some application .executor) (.init Bytes)
      (frames.reverse ++ frames)).map Stream.failed) = some none := by decide +kernel
  have hwindow : Along (step cipher some application .executor) (fun s data => s.failed = none →
      s.receiver.inboundCiphertexts.InWindow data.seq data.payload) (.init Bytes)
        (frames.reverse ++ frames) := by decide +kernel
  obtain ⟨s, hrun, hnone⟩ := Option.map_eq_some_iff.mp hdone
  have hdelivered := (relay_delivers_in_order cipher some application .executor messages frames 2
    hsent (fun _ _ _ => exactCipher_only) (fun _ _ => exactCipher_correct) _ s hrun).2
    (fun data hdata => by simpa using hdata) (fun frame hframe => by simp [hframe]) hwindow
  exact ⟨s, hrun, hnone, hdelivered.1 hnone⟩

/-- The executor hands messages over without waiting. If the application takes none, the queue is
full after 128, and the next genuine frame in order ends the stream. -/
theorem full_queue_ends_stream :
    let messages : List Bytes := List.replicate 129 [0]
    let cipher := exactCipher (records messages)
    let frames := framesFrom cipher 0 (records messages)
    let application : Nat → Move := fun _ => ⟨0, false⟩
    sendMessages cipher messages 0 = .ok (frames, 129) ∧
      Along (step cipher some application .executor) (fun s data => s.failed = none →
        s.receiver.inboundCiphertexts.InWindow data.seq data.payload) (.init Bytes) frames ∧
      ((run (step cipher some application .executor) (.init Bytes) frames).map fun s =>
          (s.failed, s.receiver.delivered.length))
        = some (some (.protocol "Noise virtual stream inbound queue is full or closed"), 128) := by
  decide +kernel

end CodexRouter.NoiseRelay
