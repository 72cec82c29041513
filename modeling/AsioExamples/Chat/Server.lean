import AsioExamples.Chat.Conversation

/-!
# The program of the chat server

`main` makes a `chat_server`, with a room of its own, for each port. A server numbers its
sessions as `start_accept` makes them; a session starts when its accept completes without an
error. What is said on one port is heard there alone.
-/

namespace AsioExamples.Chat

set_option autoImplicit false

/-- `accepting` is the session that the outstanding `async_accept` waits for. -/
structure ChatServer where
  network : Network Nat
  accepting : Nat

inductive ServerEvent where
  | accept (s : Nat) (error : Bool)
  | network (e : NetworkEvent Nat)
deriving DecidableEq

def ChatEvent.startOf {ι : Type} : ChatEvent ι → Option ι
  | .start s => some s
  | _ => none

def NetworkEvent.startOf {ι : Type} : NetworkEvent ι → Option ι
  | .room e => e.startOf
  | _ => none

namespace ChatServer

def startAccept (st : ChatServer) : ChatServer := { st with accepting := st.accepting + 1 }

def handleAccept (st : ChatServer) (s : Nat) (error : Bool) : ChatServer :=
  let st :=
    if !error then { st with network := networkMachine.next st.network (.room (.start s)) } else st
  st.startAccept

/-- The constructor has called `start_accept` for session 0. -/
def init (peers : Peers Nat) : ChatServer := ⟨Network.init peers, 0⟩

end ChatServer

def chatServerMachine : Machine ChatServer ServerEvent where
  enabled st
    | .accept s _ => s = st.accepting
    | .network e => networkMachine.enabled st.network e ∧ e.startOf = none
  next st
    | .accept s error => st.handleAccept s error
    | .network e => { st with network := networkMachine.next st.network e }

instance : ∀ (st : ChatServer) (e : ServerEvent), Decidable (chatServerMachine.enabled st e)
  | st, .accept s _ => inferInstanceAs (Decidable (s = st.accepting))
  | _, .network _ => inferInstanceAs (Decidable (_ ∧ _))

/-- What an event does to the sessions of the server. -/
def ServerEvent.inNetwork : ServerEvent → Option (NetworkEvent Nat)
  | .accept s false => some (.room (.start s))
  | .accept _ true => none
  | .network e => some e

def networkTrace (trace : List ServerEvent) : List (NetworkEvent Nat) :=
  trace.filterMap ServerEvent.inNetwork

def ServerEvent.accepted : ServerEvent → Option Nat
  | .accept s false => some s
  | _ => none

/-- The sessions whose accept has completed without an error. -/
def accepted (trace : List ServerEvent) : List Nat := trace.filterMap ServerEvent.accepted

section Runs
variable {peers : Peers Nat} {trace : List ServerEvent} {st : ChatServer}

/-- The sessions run as a network does, and start in the order in which they are accepted. -/
structure Accepts (peers : Peers Nat) (trace : List ServerEvent) (st : ChatServer) : Prop where
  run : networkMachine.Run (Network.init peers) (networkTrace trace) st.network
  starts : (roomTrace (networkTrace trace)).filterMap ChatEvent.startOf = accepted trace
  below : ∀ s ∈ accepted trace, s < st.accepting
  sorted : (accepted trace).Pairwise (· < ·)

theorem accepts_init (peers : Peers Nat) : Accepts peers [] (ChatServer.init peers) where
  run := .start
  starts := rfl
  below := fun _ hs => by cases hs
  sorted := List.Pairwise.nil

theorem Accepts.start_enabled (h : Accepts peers trace st) :
    networkMachine.enabled st.network (.room (.start st.accepting)) := by
  refine ⟨?_, List.nil_prefix, fun hf => by cases hf⟩
  have hinv := (readsOn_of_run (room_run h.run)).toInv
  change st.network.room.started st.accepting = false
  by_contra hne
  have hmem := (hinv.started st.accepting).mp (by simpa using hne)
  have hstart : st.accepting ∈ accepted trace := by
    rw [← h.starts]
    exact List.mem_filterMap.mpr ⟨_, hmem, rfl⟩
  exact Nat.lt_irrefl _ (h.below _ hstart)

theorem accepts_accept (h : Accepts peers trace st) (error : Bool) :
    Accepts peers (trace ++ [.accept st.accepting error])
      (st.handleAccept st.accepting error) := by
  cases error with
  | true =>
    have hsame : accepted (trace ++ [.accept st.accepting true]) = accepted trace := by
      simp [accepted, ServerEvent.accepted]
    have hquiet : networkTrace (trace ++ [.accept st.accepting true]) = networkTrace trace := by
      simp [networkTrace, ServerEvent.inNetwork]
    refine ⟨?_, ?_, ?_, ?_⟩
    · rw [hquiet]
      exact h.run
    · rw [hquiet, hsame]
      exact h.starts
    · rw [hsame]
      exact fun s hs => Nat.lt_succ_of_lt (h.below s hs)
    · rw [hsame]
      exact h.sorted
  | false =>
    have hmore : accepted (trace ++ [.accept st.accepting false]) =
        accepted trace ++ [st.accepting] := filterMap_concat _ _ _
    have hstart : networkTrace (trace ++ [.accept st.accepting false]) =
        networkTrace trace ++ [.room (.start st.accepting)] := filterMap_concat _ _ _
    refine ⟨?_, ?_, ?_, ?_⟩
    · rw [hstart]
      exact h.run.step _ h.start_enabled
    · rw [hstart, hmore, roomTrace_concat]
      change (roomTrace (networkTrace trace) ++ [ChatEvent.start st.accepting]).filterMap _ = _
      rw [filterMap_concat, h.starts]
      rfl
    · intro s hs
      rw [hmore] at hs
      change s < st.accepting + 1
      rcases List.mem_append.mp hs with hs | hs
      · exact Nat.lt_succ_of_lt (h.below s hs)
      · rw [List.mem_singleton.mp hs]
        exact Nat.lt_succ_self _
    · rw [hmore, List.pairwise_append]
      refine ⟨h.sorted, List.pairwise_singleton _ _, fun s hs t ht => ?_⟩
      rw [List.mem_singleton.mp ht]
      exact h.below s hs

theorem accepts_network (h : Accepts peers trace st) {e : NetworkEvent Nat}
    (he : networkMachine.enabled st.network e) (hno : e.startOf = none) :
    Accepts peers (trace ++ [.network e])
      { st with network := networkMachine.next st.network e } := by
  have hsame : accepted (trace ++ [.network e]) = accepted trace := by
    simp [accepted, ServerEvent.accepted]
  have hmore : networkTrace (trace ++ [.network e]) = networkTrace trace ++ [e] :=
    filterMap_concat _ _ _
  refine ⟨?_, ?_, ?_, ?_⟩
  · rw [hmore]
    exact h.run.step e he
  · rw [hmore, hsame, roomTrace_concat, List.filterMap_append, h.starts]
    cases e with
    | room e =>
      have hno : e.startOf = none := hno
      simp [NetworkEvent.inRoom, hno]
    | client s e => simp [NetworkEvent.inRoom]
    | sendUp s piece => simp [NetworkEvent.inRoom]
    | sendDown s piece => simp [NetworkEvent.inRoom]
  · rw [hsame]
    exact h.below
  · rw [hsame]
    exact h.sorted

theorem accepts_of_run (h : chatServerMachine.Run (ChatServer.init peers) trace st) :
    Accepts peers trace st := by
  refine h.invariant (accepts_init peers) ?_
  intro trace st e hi he
  cases e with
  | accept s error =>
    obtain rfl : s = st.accepting := he
    exact accepts_accept hi error
  | network e => exact accepts_network hi he.1 he.2

end Runs

section Ports
variable {κ : Type} [DecidableEq κ] {peers : κ → Peers Nat} {trace : List (κ × ServerEvent)}
  {st : κ → ChatServer}

/-- The events of the room of one port. -/
def roomAt (k : κ) (trace : List (κ × ServerEvent)) : List (ChatEvent Nat) :=
  roomTrace (networkTrace (Machine.eventsAt k trace))

/-- On every port, whatever happens on the others: sessions start once each, in the order in
which they are accepted, and what a client prints was typed at clients of the same port and
said in its room, from the last hundred messages before it joined on. -/
theorem rooms_do_not_mix
    (h : (Machine.indexed κ chatServerMachine).Run (fun k => ChatServer.init (peers k)) trace st)
    (k : κ) :
    (roomAt k trace).filterMap ChatEvent.startOf = accepted (Machine.eventsAt k trace) ∧
    (accepted (Machine.eventsAt k trace)).Pairwise (· < ·) ∧
    (∀ s, .start s ∉ roomAt k trace → ((st k).network.clients s).client.out = []) ∧
    ∀ s before rest, roomAt k trace = before ++ .start s :: rest →
      ∃ said, said <+: heard s before rest ∧
        ((st k).network.clients s).client.out = printed (said.map Prod.snd) ∧
        ∀ p ∈ said, p.2 ∈ typedBodies ((peers k).text p.1) := by
  have haccepts := accepts_of_run (h.indexed_at k)
  refine ⟨haccepts.starts, haccepts.sorted, fun s hstart => silent_of_run haccepts.run hstart,
    fun s before rest hcut => ?_⟩
  obtain ⟨bodies, hbodies, hout⟩ := hears_of_run haccepts.run hcut
  refine ⟨(heard s before rest).take bodies.length, List.take_prefix _ _, ?_, fun p hp => ?_⟩
  · rw [hout, List.map_take, ← List.prefix_iff_eq_take.mp hbodies]
  · have hspoken := heard_subset (List.mem_of_mem_take hp)
    rw [← hcut] at hspoken
    apply ((speaks_of_run haccepts.run).typed p.1).subset
    exact List.mem_map_of_mem (List.mem_filter.mpr ⟨hspoken, by simp⟩)

/-- Two ports, with one session on each; the second accept on the first port has failed. -/
theorem rooms_do_not_mix_two :
    let peers : Bool → Peers Nat := fun k => ⟨fun _ => Fill.zero, fun _ => Fill.zero,
      fun _ _ => Fill.zero, fun _ => if k then str "hi\n" else []⟩
    let said : List ServerEvent := [.accept 0 false, .network (.client 0 (.connect false)),
      .network (.client 0 .call), .network (.client 0 .runPosted),
      .network (.sendUp 0 (str "   2hi")), .network (.client 0 .sent),
      .network (.room (.readHeader 0 (str "   2") false)),
      .network (.room (.readBody 0 (str "hi") false)), .accept 1 true,
      .network (.sendDown 0 (str "   2hi")),
      .network (.client 0 (.readHeader (str "   2") false)),
      .network (.client 0 (.readBody (str "hi") false))]
    let trace := (false, ServerEvent.accept 0 false) :: said.map fun e => (true, e)
    ∃ st,
      (Machine.indexed Bool chatServerMachine).Run (fun k => ChatServer.init (peers k)) trace st ∧
      ((st true).network.clients 0).client.out = str "hi\n" ∧
      ((st false).network.clients 0).client.out = [] := by
  intro peers said trace
  have hadmits : (Machine.indexed Bool chatServerMachine).Admits
      (fun k => ChatServer.init (peers k)) trace := by decide +kernel
  obtain ⟨-, -, -, hhears⟩ := rooms_do_not_mix hadmits.run false
  obtain ⟨said, hsaid, hout, -⟩ := hhears 0 [] [] rfl
  refine ⟨_, hadmits.run, by decide +kernel, ?_⟩
  rw [hout, List.eq_nil_of_prefix_nil hsaid]
  rfl

end Ports

end AsioExamples.Chat
