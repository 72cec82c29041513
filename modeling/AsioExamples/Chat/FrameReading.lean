import AsioExamples.Chat.InputCutting

/-!
# Reading a stream of frames

What the other side has sent may end anywhere, but it begins as a stream of frames does. A
reader of such a stream takes whole frames, and the header of one more.
-/

namespace AsioExamples.Chat

set_option autoImplicit false

/-- The reader has taken the frames of `bodies`, and the next header if it waits for a body. A
reader that has stopped may have taken anything. -/
def Aligned (r : Reader) (taken : Bytes) (bodies : List Bytes) : Prop :=
  match r.reading with
  | none => True
  | some .header => taken = bodies.flatMap frame
  | some .body =>
    r.readMsg.data.take headerLength = padded r.readMsg.bodyLength ∧
      taken = bodies.flatMap frame ++ padded r.readMsg.bodyLength

theorem Aligned.of_none {r : Reader} (h : r.reading = none) (taken : Bytes)
    (bodies : List Bytes) : Aligned r taken bodies := by
  unfold Aligned
  rw [h]
  trivial

section Streams
variable {all bodies : List Bytes} {piece : Bytes}

/-- Behind whole frames, a header is the header of the next. -/
theorem header_of_frames (hall : ∀ b ∈ all, b.length ≤ maxBodyLength) (hbodies : bodies <+: all)
    (hlen : piece.length = headerLength)
    (h : bodies.flatMap frame ++ piece <+: all.flatMap frame) :
    ∃ b rest, all = bodies ++ b :: rest ∧ piece = padded b.length := by
  obtain ⟨rest, rfl⟩ := hbodies
  rw [List.flatMap_append, List.prefix_append_right_inj] at h
  cases rest with
  | nil =>
    have hnil := List.eq_nil_of_prefix_nil h
    rw [hnil] at hlen
    cases hlen
  | cons b rest =>
    have hb : b.length ≤ maxBodyLength := hall b (by simp)
    rw [List.flatMap_cons, frame, List.append_assoc] at h
    refine ⟨b, rest, rfl, ?_⟩
    have hpadded := length_padded hb
    obtain ⟨more, hmore⟩ := h
    exact List.append_inj_left hmore (hlen.trans hpadded.symm)

/-- Behind a header, as many bytes as it says are the body. -/
theorem body_of_frames (hall : ∀ b ∈ all, b.length ≤ maxBodyLength) (hbodies : bodies <+: all)
    (hle : piece.length ≤ maxBodyLength)
    (h : bodies.flatMap frame ++ padded piece.length ++ piece <+: all.flatMap frame) :
    bodies ++ [piece] <+: all := by
  have hheader : bodies.flatMap frame ++ padded piece.length <+: all.flatMap frame :=
    (List.prefix_append _ _).trans h
  obtain ⟨b, rest, rfl, hpadded⟩ :=
    header_of_frames hall hbodies (length_padded hle) hheader
  have hb : b.length ≤ maxBodyLength := hall b (by simp)
  have hlength : piece.length = b.length := by
    rw [← headerValue_padded hle, hpadded, headerValue_padded hb]
  rw [List.append_assoc, List.flatMap_append, List.prefix_append_right_inj, List.flatMap_cons,
    frame, List.append_assoc, ← hpadded, List.prefix_append_right_inj] at h
  obtain ⟨more, hmore⟩ := h
  rw [List.append_inj_left hmore hlength, List.prefix_append_right_inj]
  exact ⟨rest, rfl⟩

end Streams

section Steps
variable {r : Reader} {taken piece : Bytes} {all bodies : List Bytes}

theorem Aligned.readHeader (h : Aligned r taken bodies) (hreading : r.reading = some .header)
    (hall : ∀ b ∈ all, b.length ≤ maxBodyLength) (hbodies : bodies <+: all)
    (hlen : piece.length = headerLength) (hsent : taken ++ piece <+: all.flatMap frame) :
    ∃ msg, r.handleReadHeader piece false = (⟨msg, some .body⟩, .proceed) ∧
      headerValue piece ≤ maxBodyLength ∧ Aligned ⟨msg, some .body⟩ (taken ++ piece) bodies := by
  unfold Aligned at h
  rw [hreading] at h
  have h : taken = bodies.flatMap frame := h
  rw [h] at hsent
  obtain ⟨b, rest, rfl, rfl⟩ := header_of_frames hall hbodies hlen hsent
  have hvalue := headerValue_padded (hall b (by simp))
  rcases r.handleReadHeader_cases false (fun _ => hlen) with
    ⟨-, hle, msg, hread, hdata, hlength⟩ | ⟨herror | hlong, -⟩
  · rw [hvalue] at hlength
    refine ⟨msg, hread, hle, ?_, ?_⟩
    · change msg.data.take headerLength = padded msg.bodyLength
      rw [hdata, hlength]
    · change taken ++ padded b.length = bodies.flatMap frame ++ padded msg.bodyLength
      rw [h, hlength]
  · cases herror
  · rw [hvalue] at hlong
    have hle : b.length ≤ maxBodyLength := hall b (by simp)
    omega

theorem Aligned.readBody (h : Aligned r taken bodies) (hreading : r.reading = some .body)
    (hall : ∀ b ∈ all, b.length ≤ maxBodyLength) (hbodies : bodies <+: all)
    (hlen : piece.length = r.readMsg.bodyLength) (hsent : taken ++ piece <+: all.flatMap frame) :
    ∃ msg, r.handleReadBody piece false = (⟨msg, some .header⟩, .accept msg) ∧
      msg.body = piece ∧ r.readMsg.data.take headerLength = padded piece.length ∧
      bodies ++ [piece] <+: all ∧
      Aligned ⟨msg, some .header⟩ (taken ++ piece) (bodies ++ [piece]) := by
  unfold Aligned at h
  rw [hreading] at h
  obtain ⟨hheader, htaken⟩ : r.readMsg.data.take headerLength = padded r.readMsg.bodyLength ∧
    taken = bodies.flatMap frame ++ padded r.readMsg.bodyLength := h
  have hle : piece.length ≤ maxBodyLength := by
    rw [hlen]
    exact r.readMsg.bodyLength_le
  rw [← hlen] at hheader htaken
  obtain ⟨msg, hread, hbody, -⟩ := r.handleReadBody_ok hlen
  rw [htaken] at hsent
  refine ⟨msg, hread, hbody, hheader, body_of_frames hall hbodies hle hsent, ?_⟩
  change taken ++ piece = (bodies ++ [piece]).flatMap frame
  rw [htaken, List.flatMap_append, List.append_assoc]
  simp [frame]

end Steps

end AsioExamples.Chat
