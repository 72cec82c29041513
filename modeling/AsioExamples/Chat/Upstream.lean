import AsioExamples.Chat.ClientClose
import AsioExamples.Chat.InputCutting
import AsioExamples.Chat.Network

/-!
# From a client to the room

Whatever fails, what a client's socket has taken is the beginning of the frames of the lines
typed at it: nothing is sent on a connection once it is closed.
-/

namespace AsioExamples.Chat

set_option autoImplicit false

/-- The bodies of the messages made of a text: `strlen` sees a line up to its first NUL. -/
def typedBodies (text : Bytes) : List Bytes :=
  (typedLines (text.length + 1) text).map cStr

section Lines

theorem length_typedBodies {text body : Bytes} (h : body ∈ typedBodies text) :
    body.length ≤ maxBodyLength := by
  obtain ⟨line, hline, rfl⟩ := List.mem_map.mp h
  exact (List.takeWhile_prefix _).length_le.trans (length_le_of_mem_typedLines hline)

/-- The messages of which `main` posts the writing. -/
def typedMessages (fills : Nat → Fill) (text : Bytes) : List ChatMessage :=
  (typedLines (text.length + 1) text).mapIdx fun i line => makeMessage (fills i) (cStr line)

theorem mainCalls_eq (fills : Nat → Fill) (text : Bytes) :
    mainCalls fills text = (typedMessages fills text).map .doWrite ++ [.doClose] := by
  unfold mainCalls typedMessages
  rw [List.mapIdx_eq_zipIdx_map, List.mapIdx_eq_zipIdx_map, List.map_map]
  rfl

theorem typedMessages_bytes (fills : Nat → Fill) (text : Bytes) :
    (typedMessages fills text).map ChatMessage.bytes = (typedBodies text).map frame := by
  have hbytes : ∀ line ∈ typedLines (text.length + 1) text, ∀ fill : Fill,
      (makeMessage fill (cStr line)).bytes = frame (cStr line) := by
    intro line hline fill
    have hle : (cStr line).length ≤ maxBodyLength :=
      length_typedBodies (List.mem_map_of_mem hline)
    rw [makeMessage_bytes, List.take_of_length_le hle]
    rfl
  unfold typedMessages typedBodies
  generalize typedLines (text.length + 1) text = lines at hbytes
  induction lines generalizing fills with
  | nil => rfl
  | cons line lines ih =>
    obtain ⟨hline, hlines⟩ := List.forall_mem_cons.mp hbytes
    rw [List.mapIdx_cons, List.map_cons, List.map_cons, List.map_cons, hline]
    congr 1
    exact ih (fun i => fills (i + 1)) hlines

end Lines

section Client
variable {msgs : List ChatMessage} {st : ClientState}

/-- The write under way is of the next message. -/
theorem begun_isPrefix (h : ClientState.Inv msgs st)
    (hpending : st.client.writing = some .pending) :
    st.client.begun <+: msgs.map ChatMessage.bytes := by
  have hall := h.all
  have hunsent : st.client.unsent = st.client.writeMsgs := by
    simp [ChatClient.unsent, hpending]
  rw [← hall, ClientState.unwritten, hunsent, List.map_append]
  unfold ChatClient.begun
  rw [List.prefix_append_right_inj]
  cases st.client.writeMsgs with
  | nil => exact List.nil_prefix
  | cons front rest => exact ⟨_, rfl⟩

end Client

section Network
variable {ι : Type} [DecidableEq ι] {peers : Peers ι} {trace : List (NetworkEvent ι)}
  {st : Network ι}

theorem flatten_isPrefix {l l' : List Bytes} (h : l <+: l') : l.flatten <+: l'.flatten := by
  obtain ⟨rest, rfl⟩ := h
  rw [List.flatten_append]
  exact List.prefix_append _ _

theorem client_inv (h : networkMachine.Run (Network.init peers) trace st) {s : ι}
    (hopen : (st.clients s).client.isOpen = true) :
    ClientState.Inv (typedMessages (peers.lineFill s) (peers.text s)) (st.clients s) := by
  have hrun := client_run s h
  change (clientMachine true).Run (ClientState.init _ (mainCalls _ _)) _ _ at hrun
  rw [mainCalls_eq] at hrun
  exact ClientState.inv_of_run hrun hopen

theorem up_isPrefix (h : networkMachine.Run (Network.init peers) trace st) (s : ι) :
    (st.up s).sent <+: (typedBodies (peers.text s)).flatMap frame := by
  refine h.invariant_along
    (I := fun _ st => (st.up s).sent <+: (typedBodies (peers.text s)).flatMap frame)
    List.nil_prefix ?_
  intro trace st e hrun hi he
  cases e with
  | room e =>
    by_cases hs : s = e.actor
    · subst hs
      simpa [networkMachine] using hi
    · simpa [networkMachine, hs] using hi
  | client t e => exact hi
  | sendUp t piece =>
    by_cases hs : s = t
    · subst hs
      obtain ⟨hopen, hpending, hpiece⟩ := he
      have hbegun := begun_isPrefix (client_inv hrun hopen) hpending
      rw [typedMessages_bytes] at hbegun
      have hsent := hpiece.trans (flatten_isPrefix hbegun)
      rw [← List.flatMap_def] at hsent
      simpa [networkMachine, Pipe.send] using hsent
    · simpa [networkMachine, hs] using hi
  | sendDown t piece => exact hi

end Network

end AsioExamples.Chat
