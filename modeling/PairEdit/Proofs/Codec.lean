import PairEdit.Proofs.RoundTrip

/-!
# The codec on every envelope

Decoding an envelope, with anything behind it that still fits, gives its message or the
one reason against it: first a foreign version, then a limit that is broken.  Encoding
gives the envelope of this version when the message and the envelope keep to the limits.
The two sides need not have the same limits: what one of them sends, the other one holds
against its own.
-/

namespace PairEdit.Message

/-- The numbers of a message are machine words. -/
def InWords : Message → Prop
  | .update u =>
      u.edit.pos ≤ Word.max ∧ u.edit.del ≤ Word.max ∧ u.sent ≤ Word.max ∧ u.seen ≤ Word.max
  | _ => True

instance (m : Message) : Decidable m.InWords := by
  cases m <;> unfold InWords <;> infer_instance

variable {limits : Limits} {m : Message} {bytes suffix : Bytes} {version : Nat}

theorem InWords.sized (h : m.InWords)
    (hbytes : (Envelope.mk version m).bytes.length ≤ Word.max) : m.Sized := by
  refine sized_of_length_bytes hbytes ?_
  rintro u rfl
  exact h

/-- Decoding an envelope looks at its version, and then holds the message against the
limits. -/
theorem decode_bytes_append (hlimits : limits.messageBytes ≤ Word.max) (hversion : version < 256)
    (hm : m.InWords)
    (hlen : (Envelope.mk version m).bytes.length + suffix.length ≤ limits.messageBytes) :
    Message.decode limits ((Envelope.mk version m).bytes ++ suffix) =
      if version ≠ protocolVersion then .error (.versionMismatch version)
      else match m.check limits with
        | .error b => .error (.invalidMessage (.breach b))
        | .ok () => .ok m := by
  have hbytes : (Envelope.mk version m).bytes.length ≤ Word.max := by omega
  have hread := Envelope.ofBytes?_append (e := ⟨version, m⟩) hversion (hm.sized hbytes) suffix
  rw [Message.decode, if_neg (by rw [List.length_append]; omega)]
  exact hread ▸ rfl

/-- The bytes in which a message is sent. -/
def payload (m : Message) : Bytes := (Envelope.mk protocolVersion m).bytes

/-- What of a message leaves a party that keeps to the limits: all of it, or nothing. -/
def leaving (limits : Limits) (m : Message) : List Message :=
  match m.encode limits with
  | .ok _ => [m]
  | .error _ => []

theorem eq_payload_of_encode (h : m.encode limits = .ok bytes) : bytes = m.payload :=
  (encode_eq_ok_iff.1 h).2.1.symm

/-- What a message that was sent comes to, at a peer that may have limits of its own. -/
theorem decode_payload (hlimits : limits.messageBytes ≤ Word.max) (hm : m.InWords)
    (hlen : m.payload.length ≤ limits.messageBytes) :
    Message.decode limits m.payload = match m.check limits with
      | .error b => .error (.invalidMessage (.breach b))
      | .ok () => .ok m := by
  have hdecode := decode_bytes_append hlimits (show protocolVersion < 256 by decide) hm
    (show m.payload.length + ([] : Bytes).length ≤ limits.messageBytes from hlen)
  rwa [List.append_nil, if_neg (by simp)] at hdecode

/-- A peer decodes the message that was sent, or nothing. -/
theorem eq_of_decode_payload {m' : Message} (hlimits : limits.messageBytes ≤ Word.max)
    (hm : m.InWords) (h : Message.decode limits m.payload = .ok m') : m' = m := by
  by_cases hlen : m.payload.length ≤ limits.messageBytes
  · rw [decode_payload hlimits hm hlen] at h
    split at h
    · cases h
    · exact (Except.ok.inj h).symm
  · rw [Message.decode, if_pos (Nat.lt_of_not_le hlen)] at h
    cases h

/-- Decoding is determined on every envelope that fits, with anything behind it; encoding
succeeds exactly on messages that keep to the limits, as does their envelope; and what is
encoded is decoded to the same message. -/
theorem codec_exact (limits : Limits) (hlimits : limits.messageBytes ≤ Word.max) :
    (∀ version < 256, ∀ m : Message, m.InWords → ∀ suffix : Bytes,
      (Envelope.mk version m).bytes.length + suffix.length ≤ limits.messageBytes →
      Message.decode limits ((Envelope.mk version m).bytes ++ suffix) =
        if version ≠ protocolVersion then .error (.versionMismatch version)
        else match m.check limits with
          | .error b => .error (.invalidMessage (.breach b))
          | .ok () => .ok m) ∧
    (∀ (m : Message) (bytes : Bytes), m.encode limits = .ok bytes ↔
      m.check limits = .ok () ∧ (Envelope.mk protocolVersion m).bytes = bytes ∧
        bytes.length ≤ limits.messageBytes) ∧
    ∀ (m : Message) (bytes : Bytes), m.InWords → m.encode limits = .ok bytes →
      Message.decode limits bytes = .ok m := by
  refine ⟨?_, ?_, ?_⟩
  · intro version hversion m hm suffix hlen
    exact decode_bytes_append hlimits hversion hm hlen
  · intro m bytes
    exact encode_eq_ok_iff
  · intro m bytes hm hencode
    obtain ⟨hcheck, rfl, hlen⟩ := encode_eq_ok_iff.1 hencode
    have hdecode := decode_payload hlimits hm hlen
    rwa [hcheck] at hdecode

/-- The usual limits with a stop of a foreign version, one of this version with bytes
behind it, and an edit that inserts more than may be inserted. -/
theorem codec_exact_usual :
    Limits.usual.messageBytes ≤ Word.max ∧
      Message.decode .usual ((Envelope.mk 7 .stop).bytes ++ [0]) = .error (.versionMismatch 7) ∧
      Message.decode .usual ((Envelope.mk 0 .stop).bytes ++ [0]) = .ok .stop ∧
      Message.decode { Limits.usual with insertChars := 1 }
          ((Envelope.mk 0 (.update ⟨⟨0, 0, ['a', 'b']⟩, 1, 0⟩)).bytes ++ []) =
        .error (.invalidMessage (.breach .insertion)) := by
  have husual := (codec_exact .usual (by decide)).1
  have htight := (codec_exact { Limits.usual with insertChars := 1 } (by decide)).1
  refine ⟨by decide, ?_, ?_, ?_⟩
  · rw [husual 7 (by decide) .stop trivial [0] (by decide)]
    rfl
  · rw [husual 0 (by decide) .stop trivial [0] (by decide)]
    rfl
  · rw [htight 0 (by decide) _ (by decide) [] (by decide +kernel)]
    rfl

end PairEdit.Message
