import CodexRouter.Lib.Fallible

set_option autoImplicit false

/-! # Length-prefixed messages

`noise_relay/message_framing.rs`: a message goes into the byte stream behind its length in four
bytes, the stream is cut into records, and the decoder puts the messages together again from
records that need not end where messages end.
-/

namespace CodexRouter.NoiseRelay

open Lib

abbrev Bytes := List UInt8

/-- `ExecServerError`, as far as the relay makes it. -/
inductive RelayError
  | protocol (message : String)
  | json
  | closed
  deriving DecidableEq

def LENGTH_PREFIX_BYTES : Nat := 4
def MAX_NOISE_JSONRPC_MESSAGE_LEN : Nat := 64 * 1024 * 1024
def NOISE_RECORD_PLAINTEXT_LEN : Nat := 60 * 1024

/-! ## Sending -/

/-- `to_be_bytes` of 32 bits. -/
def toBeBytes (n : Nat) : Bytes :=
  [UInt8.ofNat (n / 2 ^ 24), UInt8.ofNat (n / 2 ^ 16), UInt8.ofNat (n / 2 ^ 8), UInt8.ofNat n]

def fromBeBytes (b₀ b₁ b₂ b₃ : UInt8) : Nat :=
  b₀.toNat * 2 ^ 24 + b₁.toNat * 2 ^ 16 + b₂.toNat * 2 ^ 8 + b₃.toNat

def messageLengthPrefix (messageLen : Nat) : Except RelayError Bytes :=
  if messageLen = 0 ∨ messageLen > MAX_NOISE_JSONRPC_MESSAGE_LEN then
    .error (.protocol "Noise relay JSON-RPC message exceeds maximum length")
  else .ok (toBeBytes messageLen)

def frameMessage (message : Bytes) : Except RelayError Bytes := do
  let lengthBytes ← messageLengthPrefix message.length
  return lengthBytes ++ message

/-- `chunks`: pieces of `n` bytes, and what is left. The first argument bounds their number. -/
def chunksFrom (n : Nat) : Nat → Bytes → List Bytes
  | 0, _ => []
  | _ + 1, [] => []
  | fuel + 1, bytes => bytes.take n :: chunksFrom n fuel (bytes.drop n)

def chunks (n : Nat) (bytes : Bytes) : List Bytes := chunksFrom n bytes.length bytes

/-! ## Receiving -/

/-- The loop of `MessageDecoder::push`: the messages that are complete, and what stays buffered.
The first argument bounds the number of rounds. -/
def takeMessages : Nat → Bytes → Except RelayError (List Bytes × Bytes)
  | fuel + 1, b₀ :: b₁ :: b₂ :: b₃ :: rest =>
    let messageLen := fromBeBytes b₀ b₁ b₂ b₃
    if messageLen = 0 ∨ messageLen > MAX_NOISE_JSONRPC_MESSAGE_LEN then
      .error (.protocol "Noise relay JSON-RPC message has invalid length")
    else if rest.length < messageLen then .ok ([], b₀ :: b₁ :: b₂ :: b₃ :: rest)
    else do
      let (messages, buffered) ← takeMessages fuel (rest.drop messageLen)
      return (rest.take messageLen :: messages, buffered)
  | _, buffered => .ok ([], buffered)

/-- `MessageDecoder::push`, with what was buffered before. -/
def decoderPush (buffered plaintextRecord : Bytes) : Except RelayError (List Bytes × Bytes) :=
  if plaintextRecord.length > NOISE_RECORD_PLAINTEXT_LEN then
    .error (.protocol "Noise relay plaintext record exceeds maximum length")
  else do
    let all := buffered ++ plaintextRecord
    let (messages, buffered) ← takeMessages all.length all
    if buffered.length > LENGTH_PREFIX_BYTES + MAX_NOISE_JSONRPC_MESSAGE_LEN then
      throw (.protocol "Noise relay JSON-RPC reassembly buffer exceeds maximum length")
    return (messages, buffered)

/-! ## The stream -/

/-- A message of 1 byte to 64 MiB. -/
def ValidMessage (message : Bytes) : Prop :=
  message.length ≠ 0 ∧ message.length ≤ MAX_NOISE_JSONRPC_MESSAGE_LEN

/-- What a valid message is on the wire. -/
def framed (message : Bytes) : Bytes := toBeBytes message.length ++ message

/-- The stream of bytes that carries these messages. -/
def stream (messages : List Bytes) : Bytes := messages.flatMap framed

@[simp] theorem stream_nil : stream [] = [] := rfl

@[simp] theorem stream_cons (message : Bytes) (messages : List Bytes) :
    stream (message :: messages) = framed message ++ stream messages := rfl

theorem frameMessage_eq_ok {message frame : Bytes} :
    frameMessage message = .ok frame ↔ ValidMessage message ∧ frame = framed message := by
  unfold frameMessage messageLengthPrefix ValidMessage framed
  by_cases h : message.length = 0 ∨ message.length > MAX_NOISE_JSONRPC_MESSAGE_LEN
  · rw [if_pos h]
    constructor
    · nofun
    · rintro ⟨⟨hne, hle⟩, -⟩
      omega
  · rw [if_neg h]
    have hvalid : message.length ≠ 0 ∧ message.length ≤ MAX_NOISE_JSONRPC_MESSAGE_LEN := by omega
    constructor
    · intro hframe
      cases hframe
      exact ⟨hvalid, rfl⟩
    · rintro ⟨-, rfl⟩
      rfl

theorem fromBeBytes_toBeBytes {n : Nat} (h : n < 2 ^ 32) :
    fromBeBytes (UInt8.ofNat (n / 2 ^ 24)) (UInt8.ofNat (n / 2 ^ 16)) (UInt8.ofNat (n / 2 ^ 8))
      (UInt8.ofNat n) = n := by
  simp only [fromBeBytes, UInt8.toNat_ofNat']
  omega

/-- The pieces make up the bytes, and none is longer than `n`. -/
theorem chunksFrom_spec {n fuel : Nat} (hn : 0 < n) {bytes : Bytes} (h : bytes.length ≤ fuel) :
    (chunksFrom n fuel bytes).flatten = bytes ∧ ∀ c ∈ chunksFrom n fuel bytes, c.length ≤ n := by
  induction fuel generalizing bytes with
  | zero =>
    rw [List.length_eq_zero_iff.mp (Nat.le_zero.mp h)]
    exact ⟨rfl, nofun⟩
  | succ fuel ih =>
    cases bytes with
    | nil => exact ⟨rfl, nofun⟩
    | cons b bytes =>
      have hrest : ((b :: bytes).drop n).length ≤ fuel := by grind
      obtain ⟨hflatten, hlength⟩ := ih hrest
      have hchunks : chunksFrom n (fuel + 1) (b :: bytes)
          = (b :: bytes).take n :: chunksFrom n fuel ((b :: bytes).drop n) := rfl
      rw [hchunks, List.flatten_cons, hflatten, List.take_append_drop]
      exact ⟨rfl, List.forall_mem_cons.mpr ⟨List.length_take_le _ _, hlength⟩⟩

section Decoder

variable {m : Bytes}

theorem ValidMessage.lt (h : ValidMessage m) : m.length < 2 ^ 32 := by
  have hle := h.2
  unfold MAX_NOISE_JSONRPC_MESSAGE_LEN at hle
  omega

theorem length_framed (m : Bytes) : (framed m).length = m.length + 4 := by
  simp [framed, toBeBytes]

/-- A message that is not there as a whole stays buffered. -/
theorem takeMessages_short (hm : ValidMessage m) (fuel : Nat) {buffered later more : Bytes}
    (hstream : buffered ++ later = framed m ++ more)
    (hshort : buffered.length < (framed m).length) :
    takeMessages fuel buffered = .ok ([], buffered) := by
  cases fuel with
  | zero => rfl
  | succ fuel =>
    match buffered with
    | [] => rfl
    | [_] => rfl
    | [_, _] => rfl
    | [_, _, _] => rfl
    | b₀ :: b₁ :: b₂ :: b₃ :: rest =>
      -- the length is there
      simp only [framed, toBeBytes, List.cons_append, List.cons.injEq] at hstream
      obtain ⟨rfl, rfl, rfl, rfl, -⟩ := hstream
      have hlen := fromBeBytes_toBeBytes hm.lt
      rw [length_framed] at hshort
      simp only [List.length_cons] at hshort
      have hinvalid : ¬ (m.length = 0 ∨ m.length > MAX_NOISE_JSONRPC_MESSAGE_LEN) := by
        grind [ValidMessage]
      rw [takeMessages, hlen, if_neg hinvalid, if_pos (by omega)]

/-- A message that is there is taken out. -/
theorem takeMessages_framed (hm : ValidMessage m) (fuel : Nat) (behind : Bytes) :
    takeMessages (fuel + 1) (framed m ++ behind) = (do
      let (messages, buffered) ← takeMessages fuel behind
      return (m :: messages, buffered)) := by
  have hlen := fromBeBytes_toBeBytes hm.lt
  have hinvalid : ¬ (m.length = 0 ∨ m.length > MAX_NOISE_JSONRPC_MESSAGE_LEN) := by
    rw [not_or]
    exact ⟨hm.1, Nat.not_lt.mpr hm.2⟩
  have hrest : ¬ (m ++ behind).length < m.length := by grind
  simp only [framed, toBeBytes, List.cons_append, List.nil_append]
  rw [takeMessages, hlen, if_neg hinvalid, if_neg hrest, List.drop_left, List.take_left]

/-- **The decoder undoes the framing.** As long as what is buffered is the beginning of a stream of
valid messages, the loop takes out whole messages, and what stays is shorter than the next one. -/
theorem takeMessages_stream :
    ∀ (fuel : Nat) (messages : List Bytes) (buffered later : Bytes), buffered.length ≤ fuel →
      (∀ m ∈ messages, ValidMessage m) → buffered ++ later = stream messages →
      ∃ done rest left, messages = done ++ rest ∧
        takeMessages fuel buffered = .ok (done, left) ∧ left ++ later = stream rest ∧
        ∀ m rest', rest = m :: rest' → left.length < (framed m).length := by
  intro fuel
  induction fuel with
  | zero =>
    intro messages buffered later hfuel hvalid hstream
    have hnil : buffered = [] := List.length_eq_zero_iff.mp (Nat.le_zero.mp hfuel)
    subst hnil
    refine ⟨[], messages, [], rfl, rfl, hstream, ?_⟩
    intro m rest' _
    rw [length_framed]
    exact Nat.succ_pos _
  | succ fuel ih =>
    intro messages buffered later hfuel hvalid hstream
    cases messages with
    | nil =>
      -- nothing is left to receive
      rw [stream_nil, List.append_eq_nil_iff] at hstream
      obtain ⟨rfl, rfl⟩ := hstream
      exact ⟨[], [], [], rfl, rfl, rfl, by rintro m rest' ⟨⟩⟩
    | cons m messages =>
      have hm := hvalid m List.mem_cons_self
      by_cases hshort : buffered.length < (framed m).length
      · refine ⟨[], m :: messages, buffered, rfl, takeMessages_short hm _ hstream hshort,
          hstream, ?_⟩
        rintro m' rest' ⟨⟩
        exact hshort
      · -- the message is complete; go on behind it
        obtain ⟨behind, rfl⟩ : ∃ behind, buffered = framed m ++ behind := by
          have hbegin : framed m <+: buffered ++ later := ⟨stream messages, hstream.symm⟩
          obtain ⟨behind, hbehind⟩ := List.prefix_of_prefix_length_le hbegin
            (List.prefix_append buffered later) (Nat.not_lt.mp hshort)
          exact ⟨behind, hbehind.symm⟩
        rw [stream_cons, List.append_assoc, List.append_cancel_left_eq] at hstream
        have hfuel' : behind.length ≤ fuel := by grind [length_framed]
        obtain ⟨done, rest, left, rfl, htake, hleft, hnext⟩ := ih messages behind later hfuel'
          (fun m' hm' => hvalid m' (List.mem_cons_of_mem m hm')) hstream
        refine ⟨m :: done, rest, left, rfl, ?_, hleft, hnext⟩
        rw [takeMessages_framed hm, htake]
        rfl

/-- The same for one record: a record of the stream is never an error. -/
theorem decoderPush_stream {messages : List Bytes} {buffered record later : Bytes}
    (hvalid : ∀ m ∈ messages, ValidMessage m)
    (hrecord : record.length ≤ NOISE_RECORD_PLAINTEXT_LEN)
    (hstream : buffered ++ (record ++ later) = stream messages) :
    ∃ done rest left, messages = done ++ rest ∧
      decoderPush buffered record = .ok (done, left) ∧ left ++ later = stream rest ∧
      ∀ m rest', rest = m :: rest' → left.length < (framed m).length := by
  rw [← List.append_assoc] at hstream
  obtain ⟨done, rest, left, rfl, htake, hleft, hnext⟩ :=
    takeMessages_stream _ messages (buffered ++ record) later (Nat.le_refl _) hvalid hstream
  -- what stays buffered is short
  have hshort : ¬ left.length > LENGTH_PREFIX_BYTES + MAX_NOISE_JSONRPC_MESSAGE_LEN := by
    cases rest with
    | nil =>
      rw [stream_nil, List.append_eq_nil_iff] at hleft
      simp [hleft.1]
    | cons m rest =>
      have hlt := hnext m rest rfl
      have hm := (hvalid m (by simp)).2
      rw [length_framed] at hlt
      unfold LENGTH_PREFIX_BYTES
      omega
  refine ⟨done, rest, left, rfl, ?_, hleft, hnext⟩
  rw [decoderPush, if_neg (Nat.not_lt.mpr hrecord)]
  refine bind_eq_ok_iff.mpr ⟨(done, left), htake, ?_⟩
  dsimp only
  rw [if_neg hshort]
  rfl

end Decoder

end CodexRouter.NoiseRelay
