import AsioExamples.Http.Server2.Threads
import AsioExamples.Http.Splitting

/-!
# The connections of the pooled server

The connections run on the contexts that they were given, each on a thread of its own. None of
them has two handlers to run at a time, and each is to its client what a connection of the first
server is.
-/

namespace AsioExamples.Http.Server2

set_option autoImplicit false

open Server (ErrorCode Connection OpKind Operation Peer Completes Kept AnswersStream)

def piece (c : Nat) : PooledEvent → Option Bytes
  | .act _ (.connection d kind e transferred) =>
    if d = c ∧ kind = .read ∧ e = .success then some transferred else none
  | _ => none

/-- What connection `c` has been given by its reads. -/
def pieces (c : Nat) (trace : List PooledEvent) : List Bytes := trace.filterMap (piece c)

theorem pieces_concat (c : Nat) (trace : List PooledEvent) (e : PooledEvent) :
    pieces c (trace ++ [e]) = pieces c trace ++ (piece c e).toList :=
  filterMap_concat _ trace e

section Runs
variable {docRoot : Bytes} {files : Bytes → Option Bytes} {fills : Nat → Buffer × Nat} {n : Nat}
  {trace : List PooledEvent} {st : PooledServer}

/-- A connection lives exactly as long as it has an operation outstanding. -/
structure Pooled (docRoot : Bytes) (files : Bytes → Option Bytes) (fills : Nat → Buffer × Nat)
    (trace : List PooledEvent) (st : PooledServer) : Prop where
  kept : ∀ c, Kept docRoot files (fills c).2 (st.peers c) (pieces c trace)
  living : ∀ c, (st.peers c).hasStarted = true →
    ((st.peers c).isOpen = true ↔ (st.peers c).outstanding ≠ [])
  unmade : ∀ c, st.server.connections.length ≤ c + 1 → (st.peers c).hasStarted = false
  unaborted : ∀ c kind transferred,
    ⟨kind, some (.operationAborted, transferred)⟩ ∉ (st.peers c).outstanding

theorem kept_update (h : Pooled docRoot files fills trace st) {c : Nat} {f : Peer → Peer}
    {e : PooledEvent} (he : ∀ d, d ≠ c → piece d e = none)
    (hkept : Kept docRoot files (fills c).2 (f (st.peers c)) (pieces c trace ++ (piece c e).toList))
    (d : Nat) :
    Kept docRoot files (fills d).2 ((st.update c f).peers d) (pieces d (trace ++ [e])) := by
  rw [pieces_concat]
  by_cases hd : d = c
  · subst hd
    have hself : (st.update d f).peers d = f (st.peers d) := Function.update_self ..
    rw [hself]
    exact hkept
  · have hother : (st.update c f).peers d = st.peers d := Function.update_of_ne hd ..
    rw [hother, he d hd]
    simpa using h.kept d

/-- An event of connection `c` alone. -/
theorem pooled_update (h : Pooled docRoot files fills trace st) {c : Nat} {f : Peer → Peer}
    {e : PooledEvent} (he : ∀ d, d ≠ c → piece d e = none)
    (hkept : Kept docRoot files (fills c).2 (f (st.peers c)) (pieces c trace ++ (piece c e).toList))
    (hstarted : (f (st.peers c)).hasStarted = (st.peers c).hasStarted)
    (hliving : (st.peers c).hasStarted = true →
      ((f (st.peers c)).isOpen = true ↔ (f (st.peers c)).outstanding ≠ []))
    (hunaborted : ∀ kind transferred,
      ⟨kind, some (.operationAborted, transferred)⟩ ∉ (f (st.peers c)).outstanding) :
    Pooled docRoot files fills (trace ++ [e]) (st.update c f) := by
  have hself : (st.update c f).peers c = f (st.peers c) := Function.update_self ..
  have hother : ∀ d, d ≠ c → (st.update c f).peers d = st.peers d :=
    fun d hd => Function.update_of_ne hd ..
  refine ⟨kept_update h he hkept, fun d hs => ?_, fun d hd => ?_, fun d => ?_⟩
  · by_cases hdc : d = c
    · subst hdc
      rw [hself] at hs ⊢
      exact hliving (hstarted.symm.trans hs)
    · rw [hother d hdc] at hs ⊢
      exact h.living d hs
  · by_cases hdc : d = c
    · subst hdc
      rw [hself, hstarted]
      exact h.unmade d hd
    · rw [hother d hdc]
      exact h.unmade d hd
  · by_cases hdc : d = c
    · subst hdc
      rw [hself]
      exact hunaborted
    · rw [hother d hdc]
      exact h.unaborted d

theorem pooled_completed (h : Pooled docRoot files fills trace st) {c : Nat} {kind : OpKind}
    {e : ErrorCode} {transferred : Bytes} (hop : ⟨kind, none⟩ ∈ (st.peers c).outstanding)
    (hc : Completes kind e transferred) :
    Pooled docRoot files fills (trace ++ [.completed c kind e transferred])
      (st.update c (·.complete kind e transferred)) := by
  have hout : ((st.peers c).complete kind e transferred).outstanding =
      [⟨kind, some (e, transferred)⟩] := by
    simp [Peer.complete, Server.outstanding_eq_of_mem (h.kept c) hop]
  refine pooled_update h (fun _ _ => rfl) ?_ rfl (fun hs => ?_) fun kind' transferred' hmem => ?_
  · simpa [piece] using Server.kept_complete (h.kept c) hop hc
  · rw [hout]
    have hopen : (st.peers c).isOpen = true := (h.living c hs).mpr (List.ne_nil_of_mem hop)
    exact iff_of_true hopen (List.cons_ne_nil _ _)
  · rw [hout] at hmem
    cases List.mem_singleton.mp hmem
    exact hc.1 rfl

theorem pooled_handle (h : Pooled docRoot files fills trace st) {i c : Nat} {kind : OpKind}
    {e : ErrorCode} {transferred : Bytes}
    (hop : ⟨kind, some (e, transferred)⟩ ∈ (st.peers c).outstanding) :
    Pooled docRoot files fills (trace ++ [.act i (.connection c kind e transferred)])
      (st.update c (handled docRoot files kind e transferred)) := by
  have hkept := h.kept c
  have hs := Server.hasStarted_of_mem hkept hop
  have he : e ≠ .operationAborted := by
    rintro rfl
    exact h.unaborted c _ _ hop
  have hsame := handled_eq hkept hop he
  have hopen : (st.peers c).isOpen = true := (h.living c hs).mpr (List.ne_nil_of_mem hop)
  have hpiece : (piece c (.act i (.connection c kind e transferred))).toList =
      if kind = .read ∧ e = .success then [transferred] else [] := by
    by_cases hread : kind = .read ∧ e = .success
    · have hsome : piece c (.act i (.connection c kind e transferred)) = some transferred :=
        if_pos ⟨rfl, hread⟩
      rw [if_pos hread, hsome]
      rfl
    · have hnone : piece c (.act i (.connection c kind e transferred)) = none :=
        if_neg fun hd => hread hd.2
      rw [if_neg hread, hnone]
      rfl
  refine pooled_update h (fun d hd => if_neg fun hc => hd hc.1.symm) ?_ ?_ (fun _ => ?_) ?_
  · rw [hsame, hpiece]
    exact Server.kept_handle hkept hs hop
  · rw [hsame]
    exact Server.hasStarted_handled ..
  · rw [hsame]
    rcases Server.outstanding_handled hkept hop with ⟨-, -, hopen', hout⟩ | ⟨-, hclosed, hout⟩
    · rw [hopen', hout]
      exact iff_of_true hopen (List.cons_ne_nil _ _)
    · rw [hclosed, hout]
      simp
  · rw [hsame]
    intro kind' transferred' hmem
    rcases Server.outstanding_handled hkept hop with ⟨-, -, -, hout⟩ | ⟨-, -, hout⟩
    · rw [hout, if_pos hopen] at hmem
      cases List.mem_singleton.mp hmem
    · rw [hout] at hmem
      cases hmem

/-- Events that are about no connection. -/
theorem pooled_quiet (h : Pooled docRoot files fills trace st) {e : PooledEvent}
    {st' : PooledServer} (hpiece : ∀ c, piece c e = none) (hpeers : st'.peers = st.peers)
    (hlength : st.server.connections.length ≤ st'.server.connections.length) :
    Pooled docRoot files fills (trace ++ [e]) st' := by
  refine ⟨fun c => ?_, hpeers ▸ h.living, fun c hc => ?_, hpeers ▸ h.unaborted⟩
  · rw [pieces_concat, hpiece, hpeers]
    simpa using h.kept c
  · rw [hpeers]
    exact h.unmade c (by omega)

theorem Pooled.turn (h : Pooled docRoot files fills trace st) (i : Nat) (p : Option Progress) :
    Pooled docRoot files fills trace (st.turn i p) := ⟨h.kept, h.living, h.unmade, h.unaborted⟩

theorem length_connections {st : ServerState} (h : Placed n st) (hn : 0 < n) {c : Nat}
    (hc : c ∈ st.accepts) (e : Bool) :
    (serverMachine.next st (.handleAccept c e)).connections.length =
      st.connections.length + 1 := by
  obtain ⟨st', hstep, -, hsame⟩ := h.handleAccept hn hc e
  obtain ⟨x, hx⟩ := hsame.connections
  rw [next_of_step hstep, hx]
  exact List.length_append

/-- The socket of the new connection has been opened, and the connection is started. -/
theorem pooled_started (h : Pooled docRoot files fills trace st) (ht : Threaded n trace st)
    (hn : 0 < n) {i c : Nat} (hc : c ∈ st.server.accepts) :
    Pooled docRoot files fills (trace ++ [.act i (.handleAccept c false)])
      (st.handle docRoot files (.handleAccept c false)) := by
  obtain ⟨d, hnew, hlast, haccepts⟩ := ht.placed.waiting
  obtain rfl : c = d := List.mem_singleton.mp (haccepts ▸ hc)
  have hs : (st.peers c).hasStarted = false := h.unmade c (Nat.le_of_eq hlast.symm)
  have hopened := Server.kept_open (h.kept c) hs
  have hpeers : (st.startNew c).peers =
      Function.update st.peers c ({ st.peers c with isOpen := true } : Peer).start := by
    simp [PooledServer.startNew, PooledServer.update, hnew]
  have hout : ({ st.peers c with isOpen := true } : Peer).start.outstanding =
      [⟨.read, none⟩] := by
    change (st.peers c).outstanding ++ _ = _
    rw [((h.kept c).idle hs).1]
    rfl
  have hself : (st.startNew c).peers c = ({ st.peers c with isOpen := true } : Peer).start := by
    rw [hpeers]
    exact Function.update_self ..
  have hother : ∀ d, d ≠ c → (st.startNew c).peers d = st.peers d := by
    intro d hd
    rw [hpeers]
    exact Function.update_of_ne hd ..
  have hlength := length_connections ht.placed hn hc false
  refine ⟨fun d => ?_, fun d hd => ?_, fun d hd => ?_, fun d => ?_⟩
  · rw [pieces_concat, show piece d (.act i (.handleAccept c false)) = none from rfl,
      Option.toList_none, List.append_nil]
    change Kept docRoot files (fills d).2 ((st.startNew c).peers d) _
    by_cases hdc : d = c
    · subst hdc
      rw [hself]
      exact Server.kept_start hopened hs
    · rw [hother d hdc]
      exact h.kept d
  · change ((st.startNew c).peers d).hasStarted = true at hd
    change ((st.startNew c).peers d).isOpen = true ↔ ((st.startNew c).peers d).outstanding ≠ []
    by_cases hdc : d = c
    · subst hdc
      rw [hself, hout]
      exact iff_of_true rfl (List.cons_ne_nil _ _)
    · rw [hother d hdc] at hd ⊢
      exact h.living d hd
  · have hd : (serverMachine.next st.server (.handleAccept c false)).connections.length ≤ d + 1 :=
      hd
    have hdc : d ≠ c := by omega
    change ((st.startNew c).peers d).hasStarted = false
    rw [hother d hdc]
    exact h.unmade d (by omega)
  · intro kind transferred hmem
    change _ ∈ ((st.startNew c).peers d).outstanding at hmem
    by_cases hdc : d = c
    · subst hdc
      rw [hself, hout] at hmem
      cases List.mem_singleton.mp hmem
    · rw [hother d hdc] at hmem
      exact h.unaborted d kind transferred hmem

/-- What a handler does that has begun. -/
theorem pooled_act (h : Pooled docRoot files fills trace st) (ht : Threaded n trace st)
    (hn : 0 < n) (i : Nat) {handler : Handler} (hdue : st.Due handler) :
    Pooled docRoot files fills (trace ++ [.act i handler])
      (st.handle docRoot files handler) := by
  cases handler with
  | handleAccept c e =>
    cases e with
    | true =>
      refine pooled_quiet h (fun _ => rfl) rfl ?_
      exact Nat.le.intro (length_connections ht.placed hn hdue true).symm
    | false => exact pooled_started h ht hn hdue
  | handleStop => exact pooled_quiet h (fun _ => rfl) rfl (Nat.le_refl _)
  | connection c kind e transferred => exact pooled_handle h hdue

theorem pooled_next (h : Pooled docRoot files fills trace st) (ht : Threaded n trace st)
    (hn : 0 < n) {e : PooledEvent} (he : (pooledMachine docRoot files).enabled st e) :
    Pooled docRoot files fills (trace ++ [e]) ((pooledMachine docRoot files).next st e) := by
  cases e with
  | completed c kind e transferred => exact pooled_completed h he.1 he.2
  | enter i handler => exact pooled_quiet h (fun _ => rfl) rfl (Nat.le_refl _)
  | act i handler => exact (pooled_act h ht hn i (ht.due i handler he)).turn i _
  | stop i => exact pooled_quiet h (fun _ => rfl) rfl (Nat.le_refl _)
  | leave i handler => exact pooled_quiet h (fun _ => rfl) rfl (Nat.le_refl _)

theorem pooled_of_run {init : PooledServer} (hn : 0 < n)
    (hinit : PooledServer.new n fills = .ok init)
    (h : (pooledMachine docRoot files).Run init trace st) :
    Pooled docRoot files fills trace st := by
  obtain ⟨server, hplaced, hnew⟩ := new_threaded fills hn
  obtain rfl := Except.ok.inj (hinit.symm.trans hnew)
  have hstart : Pooled docRoot files fills [] ⟨server,
      fun c => Peer.new (Connection.new (fills c).1 (fills c).2), fun _ => none, []⟩ := by
    refine ⟨fun c => Server.kept_new (fills c).1, fun c hs => ?_, fun c _ => rfl,
      fun c kind transferred hmem => ?_⟩
    · cases hs
    · cases hmem
  exact h.invariant_along hstart fun _ _ _ hrun hi he =>
    pooled_next hi (threaded_of_run hn hinit hrun) hn he

end Runs

/-- What a connection writes is the answer to its stream. -/
theorem buffers_of_answers {docRoot : Bytes} {files : Bytes → Option Bytes} {stream : Bytes}
    {received : List Bytes} {p : Peer} (h : AnswersStream docRoot files stream received p)
    {buffers : List Bytes} (hwrite : .write buffers ∈ p.started) :
    buffers = (Server.streamReply docRoot files stream).toBuffers ∧
      p.connection.request = (Server.outcome stream).state.2 := by
  by_cases hanswered : (Server.outcome stream).verdict ≠ .indeterminate ∧
      (Server.outcome stream).consumed ≤ received.flatten.length
  · obtain ⟨hstarted, -⟩ := h.started.answered hanswered.1 hanswered.2
    rw [hstarted] at hwrite
    refine ⟨?_, (h.objects hanswered.1 hanswered.2).1⟩
    rcases List.mem_append.mp hwrite with hread | hlast
    · cases List.eq_of_mem_replicate hread
    · exact OpKind.write.inj (List.mem_singleton.mp hlast)
  · exfalso
    have hwaiting : (Server.outcome stream).verdict = .indeterminate ∨
        received.flatten.length < (Server.outcome stream).consumed := by
      by_cases hv : (Server.outcome stream).verdict = .indeterminate
      · exact .inl hv
      · exact .inr (Nat.lt_of_not_le fun hle => hanswered ⟨hv, hle⟩)
    rw [h.started.waiting hwaiting] at hwrite
    cases List.eq_of_mem_replicate hwrite

/-- The first server, on one thread and with a manager of its connections, and the second, on as
many as it likes and without one, write the same answer to the same stream, however the stream
is cut and whatever else they do. -/
theorem servers_answer_alike (docRoot : Bytes) (files : Bytes → Option Bytes)
    {fills₁ fills₂ : Nat → Buffer × Nat} {trace₁ : List Server.ServerEvent}
    {st₁ : Server.ServerState}
    (h₁ : (Server.serverMachine docRoot files).Run (.init fills₁) trace₁ st₁)
    {n : Nat} (hn : 1 ≤ n) {init : PooledServer} (hinit : PooledServer.new n fills₂ = .ok init)
    {trace₂ : List PooledEvent} {st₂ : PooledServer}
    (h₂ : (pooledMachine docRoot files).Run init trace₂ st₂) {c d : Nat} {stream : Bytes}
    (hstream₁ : (Server.pieces c trace₁).flatten <+: stream)
    (hstream₂ : (pieces d trace₂).flatten <+: stream) {buffers₁ buffers₂ : List Bytes}
    (hwrite₁ : .write buffers₁ ∈ (st₁.peers c).started)
    (hwrite₂ : .write buffers₂ ∈ (st₂.peers d).started) :
    buffers₁ = buffers₂ ∧
      (st₁.peers c).connection.request = (st₂.peers d).connection.request := by
  have hkept₁ := (Server.run_lifecycle h₁).kept c
  have hkept₂ := (pooled_of_run hn hinit h₂).kept d
  have hstarted : ∀ {status : Nat} {p : Peer} {received : List Bytes} {buffers : List Bytes},
      Kept docRoot files status p received → .write buffers ∈ p.started → p.hasStarted = true := by
    intro status p received buffers hkept hwrite
    cases hs : p.hasStarted with
    | true => rfl
    | false =>
      rw [(hkept.idle hs).2.1] at hwrite
      cases hwrite
  have hanswers₁ := Server.answersStream_of_kept hkept₁ (hstarted hkept₁ hwrite₁) hstream₁
  have hanswers₂ := Server.answersStream_of_kept hkept₂ (hstarted hkept₂ hwrite₂) hstream₂
  obtain ⟨hbuffers₁, hrequest₁⟩ := buffers_of_answers hanswers₁ hwrite₁
  obtain ⟨hbuffers₂, hrequest₂⟩ := buffers_of_answers hanswers₂ hwrite₂
  exact ⟨hbuffers₁.trans hbuffers₂.symm, hrequest₁.trans hrequest₂.symm⟩

/-- The first server reads a request whole, the second in two pieces. There is no such page. -/
theorem servers_answer_alike_get :
    let stream := str "GET / HTTP/1.0\r\n\r\n"
    let first := [Server.ServerEvent.accepted 0 .success, .handleAccept 0 .success,
      .completed 0 .read .success stream, .handle 0 .read .success stream]
    let run := fun h => [PooledEvent.enter 0 h, .act 0 h, .leave 0 h]
    let second := run (.handleAccept 0 false) ++
      .completed 0 .read .success (stream.take 3) ::
        run (.connection 0 .read .success (stream.take 3)) ++
      .completed 0 .read .success (stream.drop 3) ::
        run (.connection 0 .read .success (stream.drop 3))
    let buffers := (Reply.stockReply .notFound).toBuffers
    ∃ st₁, (Server.serverMachine (str "/www") fun _ => none).Run (.init fun _ => (Buffer.zero, 0))
        first st₁ ∧ .write buffers ∈ (st₁.peers 0).started ∧
      ∃ init, PooledServer.new 1 (fun _ => (Buffer.zero, 0)) = .ok init ∧
        ∃ st₂, (pooledMachine (str "/www") fun _ => none).Run init second st₂ ∧
          .write buffers ∈ (st₂.peers 0).started ∧
          (st₁.peers 0).connection.request = (st₂.peers 0).connection.request := by
  intro stream first run second buffers
  have hadmits₁ : (Server.serverMachine (str "/www") fun _ => none).Admits
      (.init fun _ => (Buffer.zero, 0)) first := by decide +kernel
  have hnew : PooledServer.new 1 (fun _ => (Buffer.zero, 0)) =
      .ok ⟨ServerState.run ⟨⟨[0], [0], 0⟩, 0, 0, some 0, [0], [], [0], true, []⟩,
        fun _ => Peer.new (Connection.new Buffer.zero 0), fun _ => none, []⟩ := rfl
  have hadmits₂ : (pooledMachine (str "/www") fun _ => none).Admits
      ⟨ServerState.run ⟨⟨[0], [0], 0⟩, 0, 0, some 0, [0], [], [0], true, []⟩,
        fun _ => Peer.new (Connection.new Buffer.zero 0), fun _ => none, []⟩ second := by
    decide +kernel
  have hrun₁ := hadmits₁.run
  have hrun₂ := hadmits₂.run
  generalize hst₁ : List.foldl _ _ first = st₁ at hrun₁
  generalize hst₂ : List.foldl _ _ second = st₂ at hrun₂
  have hwrite₁ : .write buffers ∈ (st₁.peers 0).started := by
    rw [← hst₁]
    decide +kernel
  have hwrite₂ : .write buffers ∈ (st₂.peers 0).started := by
    rw [← hst₂]
    decide +kernel
  obtain ⟨-, hrequest⟩ := servers_answer_alike (str "/www") (fun _ => none) hrun₁ (by decide) hnew
    hrun₂ (by decide : (Server.pieces 0 first).flatten <+: stream)
    (by decide : (pieces 0 second).flatten <+: stream) hwrite₁ hwrite₂
  exact ⟨st₁, hrun₁, hwrite₁, _, hnew, st₂, hrun₂, hwrite₂, hrequest⟩

end AsioExamples.Http.Server2
