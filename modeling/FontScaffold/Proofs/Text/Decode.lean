import FontScaffold.Proofs.Text.Utf8

set_option autoImplicit false

namespace FontScaffold.Utf8

namespace Pending

/-- A sequence on its way: each code point that begins with its bits and goes on within the range of
the next byte is encoded as the bytes so far and those that are missing. -/
structure Proper (pending : Pending) : Prop where
  more : pending.missing ≠ 0
  low : 0x80 ≤ pending.low
  high : pending.high ≤ 0xbf
  encodes : ∀ v, leading v pending.missing = pending.bits →
    pending.low ≤ leading v (pending.missing - 1) % 64 + 0x80 →
    leading v (pending.missing - 1) % 64 + 0x80 ≤ pending.high →
    String.utf8EncodeChar (Char.ofNat v) = pending.bytes ++ continuation v pending.missing

variable {byte : UInt8} {bits least most : Nat}

theorem proper_two (least : 2 ≤ bits) (most : bits ≤ 0x1f) (lead : byte.toNat = bits + 0xc0) :
    Proper ⟨1, 0x80, 0xbf, bits, [byte]⟩ := by
  refine ⟨Nat.one_ne_zero, Nat.le_refl _, Nat.le_refl _, ?_⟩
  intro v front _ _
  have first : v / 64 = bits := front
  exact encodeChar_two (by omega) (by omega) (by rw [lead, front])

theorem proper_three (low : 0x80 ≤ least) (high : most ≤ 0xbf) (size : bits ≤ 0xf)
    (shortest : bits = 0 → 0xa0 ≤ least) (noSurrogate : bits = 0xd → most ≤ 0x9f)
    (lead : byte.toNat = bits + 0xe0) : Proper ⟨2, least, most, bits, [byte]⟩ := by
  refine ⟨Nat.succ_ne_zero _, low, high, ?_⟩
  intro v front above below
  have first : v / 4096 = bits := leading_two.symm.trans front
  have above : least ≤ v / 64 % 64 + 0x80 := above
  have below : v / 64 % 64 + 0x80 ≤ most := below
  exact encodeChar_three (by omega) (by omega) (by omega) (by rw [lead, front])

theorem proper_four (low : 0x80 ≤ least) (high : most ≤ 0xbf) (size : bits ≤ 4)
    (shortest : bits = 0 → 0x90 ≤ least) (inside : bits = 4 → most ≤ 0x8f)
    (lead : byte.toNat = bits + 0xf0) : Proper ⟨3, least, most, bits, [byte]⟩ := by
  refine ⟨Nat.succ_ne_zero _, low, high, ?_⟩
  intro v front above below
  have first : v / 262144 = bits := leading_three.symm.trans front
  have above : least ≤ v / 4096 % 64 + 0x80 := leading_two ▸ above
  have below : v / 4096 % 64 + 0x80 ≤ most := leading_two ▸ below
  exact encodeChar_four (by omega) (by omega) (by rw [lead, front])

theorem proper_start {pending : Pending} (starts : start? byte = some pending) :
    pending.Proper ∧ pending.bytes = [byte] := by
  -- By first bytes: 0xc2 on for two; 0xe0, 0xed and the others for three; 0xf0, 0xf1 on, 0xf4 for
  -- four.
  simp only [start?] at starts
  split at starts
  · cases starts
    exact ⟨proper_two (by omega) (by omega) (by omega), rfl⟩
  split at starts
  · cases starts
    exact ⟨proper_three (by omega) (by omega) (by omega) (by omega) (by omega) (by omega), rfl⟩
  split at starts
  · cases starts
    exact ⟨proper_three (by omega) (by omega) (by omega) (by omega) (by omega) (by omega), rfl⟩
  split at starts
  · cases starts
    exact ⟨proper_three (by omega) (by omega) (by omega) (by omega) (by omega) (by omega), rfl⟩
  split at starts
  · cases starts
    exact ⟨proper_four (by omega) (by omega) (by omega) (by omega) (by omega) (by omega), rfl⟩
  split at starts
  · cases starts
    exact ⟨proper_four (by omega) (by omega) (by omega) (by omega) (by omega) (by omega), rfl⟩
  split at starts
  · cases starts
    exact ⟨proper_four (by omega) (by omega) (by omega) (by omega) (by omega) (by omega), rfl⟩
  · cases starts

variable {pending : Pending}

/-- A byte in the range of the next one fixes six more bits and is the next byte of the encoding. -/
theorem Proper.encodes_next (proper : pending.Proper)
    (accepted : pending.accepts byte = true) {v : Nat}
    (front : leading v (pending.missing - 1) = (pending.withByte byte).bits) :
    String.utf8EncodeChar (Char.ofNat v) =
      pending.bytes ++ byte :: continuation v (pending.missing - 1) := by
  rcases pending with ⟨_ | count, least, most, bits, bytes⟩
  · exact (proper.more rfl).elim
  have low : 0x80 ≤ least := proper.low
  have high : most ≤ 0xbf := proper.high
  simp only [accepts, Bool.and_eq_true, decide_eq_true_eq] at accepted
  have front : leading v count = bits * 64 + (byte.toNat - 0x80) := front
  have next : leading v count % 64 + 0x80 = byte.toNat := by omega
  have same : leading v (count + 1) = bits := by
    rw [leading]
    omega
  have encoded := proper.encodes v same (next ▸ accepted.1) (next ▸ accepted.2)
  rw [encoded, continuation, ofNat_eq next]
  rfl

theorem Proper.withByte (proper : pending.Proper) (accepted : pending.accepts byte = true)
    (more : (pending.withByte byte).missing ≠ 0) : (pending.withByte byte).Proper := by
  refine ⟨more, Nat.le_refl _, Nat.le_refl _, ?_⟩
  intro v front _ _
  rw [proper.encodes_next accepted front, Pending.withByte, List.append_assoc]
  rfl

theorem Proper.encodes_last (proper : pending.Proper) (accepted : pending.accepts byte = true)
    (last : (pending.withByte byte).missing = 0) :
    String.utf8EncodeChar (Char.ofNat (pending.withByte byte).bits) =
    (pending.withByte byte).bytes := by
  have none : pending.missing - 1 = 0 := last
  have encoded := proper.encodes_next accepted (v := (pending.withByte byte).bits)
    (by rw [none]; rfl)
  rw [encoded, none]
  rfl

end Pending

def held : Option Pending → Bytes
  | none => []
  | some pending => pending.bytes

/-- What decoding gives for bytes: a text that they encode, or a fault that stands right behind the
encoding of a text. -/
def Describes (position : Nat) (bytes : Bytes) : Except Fault Text → Prop
  | .ok text => encode text = .ok bytes
  | .error fault => ∃ text front rest, encode text = .ok front ∧ bytes = front ++ rest ∧
      fault.position = position + front.length

theorem Describes.cons {position : Nat} {c : Char} {bytes : Bytes} {result : Except Fault Text}
    (later : Describes (position + (String.utf8EncodeChar c).length) bytes result) :
    Describes position (String.utf8EncodeChar c ++ bytes) (result.map (.char c :: ·)) := by
  cases result with
  | ok text => exact encode_char_cons c later
  | error fault =>
      obtain ⟨text, front, rest, encoded, rfl, there⟩ := later
      refine ⟨.char c :: text, _, rest, encode_char_cons c encoded, ?_, ?_⟩
      · rw [List.append_assoc]
      · rw [there, List.length_append, Nat.add_assoc]

theorem Describes.fault (position : Nat) (bytes fragment : Bytes) (reason : Reason) :
    Describes position bytes (.error ⟨position, fragment, reason⟩) :=
  ⟨[], [], bytes, rfl, rfl, rfl⟩

/-- By steps of the machine, with a sequence on its way that can still become a character. -/
theorem describes_decodeFrom (position : Nat) (state : Option Pending) (bytes : Bytes)
    (proper : ∀ pending, state = some pending → pending.Proper) :
    Describes position (held state ++ bytes) (decodeFrom position state bytes) := by
  fun_induction decodeFrom position state bytes with
  | case1 position => rfl
  | case2 position pending => exact .fault _ _ _ _
  | case3 position byte rest small ih =>
      have encoded := encodeChar_one byte (UInt8.lt_iff_toNat_lt.mp small)
      have later := ih nofun
      rw [show position + 1 = position + (String.utf8EncodeChar (Char.ofNat byte.toNat)).length by
        rw [encoded]; rfl] at later
      have whole := later.cons
      rw [encoded] at whole
      exact whole
  | case4 position byte rest large bad => exact .fault _ _ _ _
  | case5 position byte rest large pending starts ih =>
      obtain ⟨proper, first⟩ := Pending.proper_start starts
      have later := ih fun _ same => Option.some.inj same ▸ proper
      rw [held, first] at later
      exact later
  | case6 position pending byte rest accepted longer last ih =>
      have encoded := (proper pending rfl).encodes_last accepted last
      have later := ih nofun
      rw [← encoded] at later
      have whole := later.cons
      rw [encoded] at whole
      rw [held, List.append_cons]
      exact whole
  | case7 position pending byte rest accepted longer more ih =>
      have later := ih fun _ same => Option.some.inj same ▸ (proper pending rfl).withByte
        accepted more
      rw [held, List.append_cons]
      exact later
  | case8 position pending byte rest refused => exact .fault _ _ _ _

theorem describes_decodeFrom_none (position : Nat) (bytes : Bytes) :
    Describes position bytes (decodeFrom position none bytes) := by
  refine describes_decodeFrom position none bytes ?_
  intro _ same
  cases same

variable {bytes front : Bytes} {text all : Text} {fault : Fault}

theorem decode_eq_ok : decode bytes = .ok text ↔ encode text = .ok bytes := by
  constructor
  · intro decoded
    have described := describes_decodeFrom_none 0 bytes
    rwa [← decode, decoded] at described
  · exact decode_of_encode

theorem exists_of_decode_error (failed : decode bytes = .error fault) :
    ∃ text, encode text = .ok (bytes.take fault.position) := by
  have described := describes_decodeFrom_none 0 bytes
  rw [← decode, failed] at described
  obtain ⟨text, front, rest, encoded, rfl, there⟩ := described
  refine ⟨text, ?_⟩
  rwa [there, Nat.zero_add, List.take_left]

theorem error_of_map {α β : Type} {f : α → β} {result : Except Fault α}
    (failed : result.map f = .error fault) : result = .error fault := by
  cases result <;> cases failed
  rfl

/-- A fault that is not the end of the bytes stays, whatever follows. -/
theorem decodeFrom_append {position : Nat} {state : Option Pending}
    (failed : decodeFrom position state bytes = .error fault)
    (shown : fault.reason ≠ .unexpectedEnd)
    (behind : Bytes) : decodeFrom position state (bytes ++ behind) = .error fault := by
  fun_induction decodeFrom position state bytes with
  | case1 position => cases failed
  | case2 position pending =>
      cases failed
      exact (shown rfl).elim
  | case3 position byte rest small ih =>
      rw [List.cons_append, decodeFrom, if_pos small, ih (error_of_map failed)]
      rfl
  | case4 position byte rest large bad =>
      rw [List.cons_append, decodeFrom, if_neg large, bad]
      exact failed
  | case5 position byte rest large pending starts ih =>
      rw [List.cons_append, decodeFrom, if_neg large, starts]
      exact ih failed
  | case6 position pending byte rest accepted longer last ih =>
      rw [List.cons_append, decodeFrom, if_pos accepted, if_pos last, ih (error_of_map failed)]
      rfl
  | case7 position pending byte rest accepted longer more ih =>
      rw [List.cons_append, decodeFrom, if_pos accepted, if_neg more]
      exact ih failed
  | case8 position pending byte rest refused =>
      rw [List.cons_append, decodeFrom, if_neg refused]
      exact failed

theorem exists_of_encode_append (encoded : encode text = .ok front)
    (whole : encode all = .ok (front ++ bytes)) :
    ∃ after, all = text ++ after ∧ encode after = .ok bytes := by
  have decoded := decode_eq_ok.mpr whole
  rw [decode, decodeFrom_encode_append 0 encoded] at decoded
  cases rest : decodeFrom (0 + front.length) none bytes with
  | error fault =>
      rw [rest] at decoded
      cases decoded
  | ok after =>
      rw [rest] at decoded
      have described := describes_decodeFrom_none (0 + front.length) bytes
      rw [rest] at described
      exact ⟨after, (Except.ok.inj decoded).symm, described⟩

theorem exists_of_decodePart {waiting : Bytes} (decoded : decodePart bytes = .ok (text, waiting)) :
    ∃ settled, encode text = .ok settled ∧ bytes = settled ++ waiting := by
  unfold decodePart at decoded
  cases taken : decode (bytes.take (settledLength bytes)) with
  | error fault =>
      simp only [taken] at decoded
      cases decoded
  | ok settled =>
      simp only [taken] at decoded
      cases decoded
      exact ⟨_, decode_eq_ok.mp taken, (List.take_append_drop _ _).symm⟩

/-- A part with a fault begins no encoding of a text. -/
theorem ne_encode_of_decodePart (failed : decodePart bytes = .error fault) (behind : Bytes)
    (text : Text) : encode text ≠ .ok (bytes ++ behind) := by
  intro whole
  unfold decodePart settledLength at failed
  cases decoded : decode bytes with
  | ok part =>
      simp only [decoded, List.take_length] at failed
      cases failed
  | error first =>
      simp only [decoded] at failed
      split at failed
      -- With the sequence that breaks off left out, there is no fault.
      · obtain ⟨part, taken⟩ := exists_of_decode_error decoded
        rw [decode_of_encode taken] at failed
        cases failed
      · next stays =>
        have shown : first.reason ≠ .unexpectedEnd := by
          intro ended
          exact stays (by rw [Fault.breaksOff, ended])
        have still := decodeFrom_append decoded shown behind
        have decodes := decode_of_encode whole
        rw [decode, still] at decodes
        cases decodes

end FontScaffold.Utf8
