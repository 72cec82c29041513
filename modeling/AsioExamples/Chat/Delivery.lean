import AsioExamples.Chat.Room
import AsioExamples.Theory.Outbox
import Mathlib.Data.List.DropRight

/-!
# Delivery in a chat room

What a session is due is read off the events alone: the last messages posted before it
joined, and what is posted from then on until it leaves. The queue of a session and its
outstanding write are an outbox of what it is due, in every run.
-/

namespace AsioExamples.Chat

set_option autoImplicit false

section Trace
variable {ι : Type} [DecidableEq ι]

/-- The messages posted so far, and the header that each session has read last. -/
structure Posts (ι : Type) where
  headers : ι → Bytes
  messages : List Bytes

namespace Posts

/-- A body read without an error is posted behind the header of its session. -/
def post (p : Posts ι) : ChatEvent ι → Option Bytes
  | .readBody s transferred false => some (p.headers s ++ transferred)
  | _ => none

def add (p : Posts ι) (e : ChatEvent ι) : Posts ι where
  headers :=
    match e with
    | .readHeader s transferred _ => Function.update p.headers s transferred
    | _ => p.headers
  messages := p.messages ++ (p.post e).toList

end Posts

def posts (trace : List (ChatEvent ι)) : Posts ι := trace.foldl Posts.add ⟨fun _ => [], []⟩

def posted (trace : List (ChatEvent ι)) : List Bytes := (posts trace).messages

/-- The events with which a session leaves: an error, or a header that is not accepted. -/
def leaves (s : ι) : ChatEvent ι → Bool
  | .start _ => false
  | .readHeader t transferred error =>
    t == s && (error || decide (maxBodyLength < headerValue transferred))
  | .readBody t _ error => t == s && error
  | .write t error => t == s && error

/-- What session `s` is due when `before` happened before it joined and `rest` since. -/
def due (s : ι) (before rest : List (ChatEvent ι)) : List Bytes :=
  (posted before).rtake maxRecentMsgs ++
    (posted (before ++ .start s :: rest.takeWhile fun e => !leaves s e)).drop
      (posted before).length

def written (s : ι) (trace : List (ChatEvent ι)) : Nat := trace.count (.write s false)

theorem posts_concat (trace : List (ChatEvent ι)) (e : ChatEvent ι) :
    posts (trace ++ [e]) = (posts trace).add e := by
  simp [posts]

theorem posted_concat (trace : List (ChatEvent ι)) (e : ChatEvent ι) :
    posted (trace ++ [e]) = posted trace ++ ((posts trace).post e).toList := by
  simp [posted, posts_concat, Posts.add]

theorem length_posted_le (before rest : List (ChatEvent ι)) :
    (posted before).length ≤ (posted (before ++ rest)).length := by
  induction rest using List.reverseRecOn with
  | nil => simp
  | append_singleton rest e ih =>
    rw [← List.append_assoc, posted_concat, List.length_append]
    exact Nat.le_add_right_of_le ih

theorem due_nil (s : ι) (before : List (ChatEvent ι)) :
    due s before [] = (posted before).rtake maxRecentMsgs := by
  have : posted (before ++ [.start s]) = posted before := by
    simp [posted_concat, Posts.post]
  simp [due, this]

theorem post_of_leaves {s : ι} {e : ChatEvent ι} (h : leaves s e = true) (p : Posts ι) :
    p.post e = none := by
  cases e with
  | readBody t transferred error =>
    simp only [leaves, Bool.and_eq_true] at h
    simp [Posts.post, h.2]
  | _ => rfl

theorem due_concat_of_left {s : ι} {before rest : List (ChatEvent ι)}
    (h : ¬ ∀ e ∈ rest, leaves s e = false) (e : ChatEvent ι) :
    due s before (rest ++ [e]) = due s before rest := by
  have : (rest.takeWhile fun e => !leaves s e).length ≠ rest.length := by
    intro hlen
    have heq := (List.takeWhile_prefix (p := fun e => !leaves s e) (l := rest)).eq_of_length hlen
    exact h fun x hx => by simpa using List.takeWhile_eq_self_iff.mp heq x hx
  unfold due
  rw [List.takeWhile_append, if_neg this]

theorem due_concat_of_member {s : ι} {before rest : List (ChatEvent ι)}
    (h : ∀ e ∈ rest, leaves s e = false) (e : ChatEvent ι) :
    due s before (rest ++ [e]) =
      due s before rest ++ ((posts (before ++ .start s :: rest)).post e).toList := by
  have hall : ∀ l : List (ChatEvent ι), (∀ x ∈ l, leaves s x = false) →
      (l.takeWhile fun e => !leaves s e) = l := by
    intro l hl
    rw [List.takeWhile_eq_self_iff]
    intro x hx
    simp [hl x hx]
  have hle := length_posted_le before (.start s :: rest)
  unfold due
  rw [List.takeWhile_append_of_pos (fun x hx => by simp [h x hx]), hall rest h, List.append_assoc]
  cases he : leaves s e with
  | true => simp [he, post_of_leaves he]
  | false =>
    have : before ++ ChatEvent.start s :: (rest ++ [e]) =
        (before ++ ChatEvent.start s :: rest) ++ [e] := by simp
    simp only [List.takeWhile_cons, he, List.takeWhile_nil, Bool.not_false, if_true]
    rw [this, posted_concat, List.drop_append_of_le_length hle]

end Trace

section Queue
variable {x : Session} {o : Outbox Bytes}

/-- The writing side of a session as an outbox of the bytes of its messages. -/
structure QueueOf (x : Session) (o : Outbox Bytes) : Prop where
  waiting : x.writeMsgs.map ChatMessage.bytes = o.waiting
  handed : x.handed = o.begun
  writing : x.writing = o.sending

theorem queueOf_new (fill : Fill) : QueueOf (Session.new fill) Outbox.empty := ⟨rfl, rfl, rfl⟩

theorem QueueOf.withReader (h : QueueOf x o) (r : Reader) : QueueOf { x with reader := r } o :=
  ⟨h.waiting, h.handed, h.writing⟩

theorem QueueOf.deliver (h : QueueOf x o) (msg : ChatMessage) :
    QueueOf (x.deliver msg) (o.push msg.bytes) := by
  obtain ⟨hwaiting, hhanded, hwriting⟩ := h
  have hpush : (x.writeMsgs ++ [msg]).map ChatMessage.bytes = (o.push msg.bytes).waiting := by
    rw [List.map_append, hwaiting]
    rfl
  unfold Session.deliver
  cases hq : x.writeMsgs with
  | nil =>
    have ho : o.waiting = [] := by rw [← hwaiting, hq]; rfl
    rw [hq] at hpush
    refine ⟨hpush, ?_, ?_⟩
    · rw [Outbox.begun_push, if_pos ho, ← hhanded]
      rfl
    · rw [Outbox.sending_push, if_pos ho, ← hwriting]
      rfl
  | cons front rest =>
    have ho : o.waiting ≠ [] := by rw [← hwaiting, hq]; simp
    rw [hq] at hpush
    refine ⟨hpush, ?_, ?_⟩
    · rw [Outbox.begun_push, if_neg ho, ← hhanded]
      rfl
    · rw [Outbox.sending_push, if_neg ho, ← hwriting]
      rfl

theorem QueueOf.foldl_deliver (h : QueueOf x o) (msgs : List ChatMessage) :
    QueueOf (msgs.foldl Session.deliver x)
      ((msgs.map ChatMessage.bytes).foldl Outbox.push o) := by
  induction msgs generalizing x o with
  | nil => exact h
  | cons msg msgs ih => exact ih (h.deliver msg)

theorem QueueOf.handleWritten (h : QueueOf x o) (hs : 0 < o.sending) :
    QueueOf x.handleWritten o.complete := by
  obtain ⟨hwaiting, hhanded, hwriting⟩ := h
  obtain ⟨hf, a, w, ho⟩ := Outbox.waiting_of_sending hs
  have hone : o.sending = 1 := Nat.le_antisymm Outbox.sending_le_one hs
  obtain ⟨front, rest, hq⟩ : ∃ front rest, x.writeMsgs = front :: rest := by
    apply List.exists_cons_of_ne_nil
    intro hnil
    rw [hnil, ho] at hwaiting
    cases hwaiting
  have htail : rest.map ChatMessage.bytes = o.waiting.tail := by
    rw [← hwaiting, hq]
    rfl
  unfold Session.handleWritten
  rw [hq, hwriting, hone]
  cases rest with
  | nil =>
    have : o.waiting.tail = [] := htail.symm
    refine ⟨htail, ?_, ?_⟩
    · rw [Outbox.begun_complete, this, ← hhanded]
      exact (List.append_nil _).symm
    · rw [Outbox.sending_complete, if_pos this]
      rfl
  | cons next rest =>
    have hne : o.waiting.tail ≠ [] := by rw [← htail]; simp
    refine ⟨htail, ?_, ?_⟩
    · rw [Outbox.begun_complete, ← htail, ← hhanded]
      rfl
    · rw [Outbox.sending_complete, if_neg hne]
      rfl

theorem QueueOf.handleFailed (h : QueueOf x o) (hs : 0 < o.sending) :
    QueueOf { x with writing := x.writing - 1 } (o.fail hs) := by
  obtain ⟨hwaiting, hhanded, hwriting⟩ := h
  have hone : o.sending = 1 := Nat.le_antisymm Outbox.sending_le_one hs
  refine ⟨hwaiting, hhanded, ?_⟩
  change x.writing - 1 = (o.fail hs).sending
  rw [hwriting, hone]
  simp [Outbox.sending, Outbox.fail]

end Queue

section Effect
variable {ι : Type} [DecidableEq ι]

def ChatEvent.actor : ChatEvent ι → ι
  | .start s => s
  | .readHeader s _ _ => s
  | .readBody s _ _ => s
  | .write s _ => s

/-- All that one event does, seen from any session `t` and from the room. -/
structure Effect (st st' : ChatState ι) (p : Posts ι) (e : ChatEvent ι) : Prop where
  started : ∀ t, st'.started t = true ↔ st.started t = true ∨ e = .start t
  participants : ∀ t, t ∈ st'.room.participants ↔
    (t ∈ st.room.participants ∨ e = .start t) ∧ leaves t e = false
  recent : (p.post e = none ∧ st'.room.recentMsgs = st.room.recentMsgs) ∨
    ∃ msg : ChatMessage, p.post e = some msg.bytes ∧
      st'.room.recentMsgs = popRecent (st.room.recentMsgs ++ [msg])
  untouched : ∀ t, e.actor ≠ t → t ∉ st.room.participants → st'.sessions t = st.sessions t
  header : ∀ t, (st'.sessions t).reader.reading = some .body →
    (st'.sessions t).reader.readMsg.data.take headerLength = (p.add e).headers t
  joins : ∀ t, e = .start t → QueueOf (st.sessions t) Outbox.empty →
    QueueOf (st'.sessions t)
      ((st.room.recentMsgs.map ChatMessage.bytes).foldl Outbox.push Outbox.empty)
  queue : ∀ t o, e ≠ .start t → QueueOf (st.sessions t) o →
    ∃ o', QueueOf (st'.sessions t) o' ∧
      o'.all = o.all ++ (if t ∈ st.room.participants then (p.post e).toList else []) ∧
      o'.done.length = o.done.length + (if e = .write t false then 1 else 0) ∧
      (o'.failed = true ↔ o.failed = true ∨ e = .write t true)

variable {st : ChatState ι} {p : Posts ι}

def HeadersRead (st : ChatState ι) (p : Posts ι) : Prop :=
  ∀ t, (st.sessions t).reader.reading = some .body →
    (st.sessions t).reader.readMsg.data.take headerLength = p.headers t

theorem queue_kept {t : ι} {o : Outbox Bytes} {x : Session} {e : ChatEvent ι}
    (h : QueueOf x o) (hpost : p.post e = none) (hwrite : ∀ error, e ≠ .write t error) :
    ∃ o', QueueOf x o' ∧
      o'.all = o.all ++ (if t ∈ st.room.participants then (p.post e).toList else []) ∧
      o'.done.length = o.done.length + (if e = .write t false then 1 else 0) ∧
      (o'.failed = true ↔ o.failed = true ∨ e = .write t true) := by
  refine ⟨o, h, ?_, ?_, ?_⟩
  · rw [hpost]
    simp
  · simp [hwrite false]
  · simp [hwrite true]

theorem effect_start (hr : HeadersRead st p) {s : ι} :
    Effect st (st.start s) p (.start s) := by
  have hsessions : ∀ t, (st.start s).sessions t =
      if t = s then
        { st.room.recentMsgs.foldl Session.deliver (st.sessions s) with
          reader := { (st.room.recentMsgs.foldl Session.deliver (st.sessions s)).reader with
            reading := some .header } }
      else st.sessions t := by
    intro t
    unfold ChatState.start ChatState.join
    simp only [ChatState.foldl_update_self, ChatState.sessions_update]
    by_cases ht : t = s
    · subst t
      simp
    · simp [ht]
  have hroom : (st.start s).room.participants = st.room.participants.insert s ∧
      (st.start s).room.recentMsgs = st.room.recentMsgs ∧
      (st.start s).started = Function.update st.started s true := by
    unfold ChatState.start ChatState.join
    simp only [ChatState.foldl_update_self]
    exact ⟨rfl, rfl, rfl⟩
  obtain ⟨hparticipants, hrecent, hstarted⟩ := hroom
  refine ⟨fun t => ?_, fun t => ?_, .inl ⟨rfl, hrecent⟩, fun t ht _ => ?_, fun t => ?_,
    fun t ht hq => ?_, fun t o ht hq => ?_⟩
  · rw [hstarted]
    by_cases h : t = s
    · simp [h]
    · simp [h, Ne.symm h]
  · rw [hparticipants, List.mem_insert_iff]
    simp only [leaves, ChatEvent.start.injEq, and_true]
    rw [or_comm, eq_comm]
  · have h : t ≠ s := Ne.symm ht
    rw [hsessions, if_neg h]
  · rw [hsessions]
    by_cases h : t = s
    · simp [h]
    · rw [if_neg h]
      exact hr t
  · obtain rfl : s = t := ChatEvent.start.inj ht
    rw [hsessions, if_pos rfl]
    exact (hq.foldl_deliver _).withReader _
  · have h : t ≠ s := fun h => ht (by rw [h])
    rw [hsessions, if_neg h]
    exact queue_kept hq rfl (fun t => by simp)

theorem mem_leave (st : ChatState ι) (s t : ι) :
    t ∈ (st.leave s).room.participants ↔ t ∈ st.room.participants ∧ t ≠ s := by
  unfold ChatState.leave
  rw [List.Nodup.mem_erase_iff st.room.nodup, and_comm]

theorem queueOf_setReader {s t : ι} {o : Outbox Bytes} (h : QueueOf (st.sessions t) o)
    (r : Reader) : QueueOf ((st.setReader s r).sessions t) o := by
  rw [ChatState.sessions_setReader]
  split
  · exact h.withReader r
  · exact h

/-- A read that is not accepted: the session leaves and reads no more. -/
theorem effect_stop (hr : HeadersRead st p) {s : ι} {msg : ChatMessage} {e : ChatEvent ι}
    (hactor : e.actor = s) (hleaves : ∀ t, leaves t e = (s == t)) (hpost : p.post e = none)
    (hstart : ∀ t, e ≠ .start t) (hwrite : ∀ t error, e ≠ .write t error)
    (hheaders : ∀ t, t ≠ s → (p.add e).headers t = p.headers t) :
    Effect st (st.act s (⟨msg, none⟩, .stop)) p e := by
  have hstate : st.act s (⟨msg, none⟩, .stop) = (st.setReader s ⟨msg, none⟩).leave s := rfl
  have hsessions : ∀ t, ((st.setReader s ⟨msg, none⟩).leave s).sessions t = _ :=
    fun t => st.sessions_setReader s t ⟨msg, none⟩
  rw [hstate]
  refine ⟨fun t => ?_, fun t => ?_, .inl ⟨hpost, rfl⟩, fun t ht _ => ?_, fun t => ?_,
    fun t ht _ => absurd ht (hstart t), fun t o _ hq => ?_⟩
  · exact ⟨.inl, fun h => h.resolve_right (hstart t)⟩
  · rw [mem_leave, hleaves, beq_eq_false_iff_ne, or_iff_left (hstart t), ne_comm]
    rfl
  · have h : t ≠ s := fun h => ht (hactor.trans h.symm)
    rw [hsessions, if_neg h]
  · rw [hsessions]
    by_cases h : t = s
    · simp [h]
    · rw [if_neg h, hheaders t h]
      exact hr t
  · exact queue_kept (queueOf_setReader hq _) hpost (hwrite t)

theorem effect_readHeader (hr : HeadersRead st p) {s : ι} {transferred : Bytes} {error : Bool}
    (he : (chatMachine (ι := ι)).enabled st (.readHeader s transferred error)) :
    Effect st (st.handleReadHeader s transferred error) p (.readHeader s transferred error) := by
  obtain ⟨-, -, hlen⟩ := he
  have hother : ∀ t, t ≠ s →
      (p.add (.readHeader s transferred error)).headers t = p.headers t :=
    fun t ht => Function.update_of_ne ht _ _
  unfold ChatState.handleReadHeader
  rcases (st.sessions s).reader.handleReadHeader_cases error hlen with
    ⟨rfl, hle, msg, hread, hdata, -⟩ | ⟨hbad, msg, hread⟩
  · have hstate : st.act s (⟨msg, some .body⟩, .proceed) = st.setReader s ⟨msg, some .body⟩ := rfl
    rw [hread, hstate]
    refine ⟨fun t => ?_, fun t => ?_, .inl ⟨rfl, rfl⟩, fun t ht _ => ?_, fun t => ?_,
      fun t ht _ => absurd ht (by simp), fun t o _ hq => ?_⟩
    · exact ⟨.inl, fun h => h.resolve_right (by simp)⟩
    · simp [ChatState.setReader, ChatState.update, leaves, Nat.not_lt.mpr hle]
    · have h : t ≠ s := Ne.symm ht
      rw [ChatState.sessions_setReader, if_neg h]
    · rw [ChatState.sessions_setReader]
      by_cases h : t = s
      · subst t
        intro _
        rw [if_pos rfl]
        exact hdata.trans (Function.update_self s transferred p.headers).symm
      · rw [if_neg h, hother t h]
        exact hr t
    · exact queue_kept (queueOf_setReader hq _) rfl (fun t => by simp)
  · rw [hread]
    refine effect_stop hr rfl (fun t => ?_) rfl (fun t => by simp) (fun t error => by simp) hother
    have : (error || decide (maxBodyLength < headerValue transferred)) = true := by
      simpa using hbad
    rw [leaves, this, Bool.and_true]

theorem reader_deliver (x : Session) (msg : ChatMessage) : (x.deliver msg).reader = x.reader := by
  unfold Session.deliver Session.asyncWrite
  cases x.writeMsgs <;> rfl

theorem reader_chatDeliver (st : ChatState ι) (msg : ChatMessage) (t : ι) :
    ((st.deliver msg).sessions t).reader = (st.sessions t).reader := by
  rw [ChatState.deliver_eq]
  change (if t ∈ st.room.participants then _ else _ : Session).reader = _
  split
  · exact reader_deliver _ msg
  · rfl

theorem reader_handleWritten (x : Session) : x.handleWritten.reader = x.reader := by
  unfold Session.handleWritten Session.asyncWrite
  rcases x.writeMsgs with _ | ⟨front, _ | ⟨next, rest⟩⟩ <;> rfl

theorem effect_readBody (hr : HeadersRead st p) {s : ι} {transferred : Bytes} {error : Bool}
    (he : (chatMachine (ι := ι)).enabled st (.readBody s transferred error)) :
    Effect st (st.handleReadBody s transferred error) p (.readBody s transferred error) := by
  obtain ⟨hreading, -, hlen⟩ := he
  unfold ChatState.handleReadBody
  cases error with
  | true =>
    refine effect_stop hr rfl (fun t => ?_) rfl (fun t => by simp) (fun t error => by simp)
      fun _ _ => rfl
    exact Bool.and_true _
  | false =>
    obtain ⟨msg, hread, -, hbytes⟩ := Reader.handleReadBody_ok _ (hlen rfl)
    have hpost : p.post (.readBody s transferred false) = some msg.bytes := by
      rw [hbytes, hr s hreading]
      rfl
    have hstate : st.act s (⟨msg, some .header⟩, .accept msg) =
        (st.setReader s ⟨msg, some .header⟩).deliver msg := rfl
    rw [hread, hstate, ChatState.deliver_eq]
    refine ⟨fun t => ?_, fun t => ?_, .inr ⟨msg, hpost, rfl⟩, fun t ht hmem => ?_, fun t => ?_,
      fun t ht _ => absurd ht (by simp), fun t o _ hq => ?_⟩
    · exact ⟨.inl, fun h => h.resolve_right (by simp)⟩
    · simp [ChatState.setReader, ChatState.update, leaves]
    · have h : t ≠ s := Ne.symm ht
      change (if t ∈ st.room.participants then _ else (st.setReader s _).sessions t) = _
      rw [if_neg hmem, ChatState.sessions_setReader, if_neg h]
    · rw [← ChatState.deliver_eq, reader_chatDeliver, ChatState.sessions_setReader]
      by_cases h : t = s
      · simp [h]
      · rw [if_neg h]
        exact hr t
    · change ∃ o', QueueOf (if t ∈ st.room.participants then _ else _) o' ∧ _
      have hq := queueOf_setReader (s := s) hq ⟨msg, some .header⟩
      by_cases hmem : t ∈ st.room.participants
      · rw [if_pos hmem, if_pos hmem, hpost]
        exact ⟨_, hq.deliver msg, Outbox.all_push msg.bytes, rfl, by simp [Outbox.push]⟩
      · rw [if_neg hmem, if_neg hmem]
        exact ⟨o, hq, (List.append_nil _).symm, rfl, by simp⟩

theorem effect_written (hr : HeadersRead st p) {s : ι} (hwriting : 0 < (st.sessions s).writing) :
    Effect st (st.handleWrite s false) p (.write s false) := by
  change Effect st (st.update s Session.handleWritten) p _
  refine ⟨fun t => ?_, fun t => ?_, .inl ⟨rfl, rfl⟩, fun t ht _ => ?_, fun t => ?_,
    fun t ht _ => absurd ht (by simp), fun t o _ hq => ?_⟩
  · exact ⟨.inl, fun h => h.resolve_right (by simp)⟩
  · simp [ChatState.update, leaves]
  · have h : t ≠ s := Ne.symm ht
    rw [ChatState.sessions_update, if_neg h]
  · rw [ChatState.sessions_update]
    split
    · rw [reader_handleWritten]
      exact hr t
    · exact hr t
  · rw [ChatState.sessions_update]
    by_cases h : t = s
    · subst t
      have hs : 0 < o.sending := by
        rw [← hq.writing]
        exact hwriting
      rw [if_pos rfl]
      refine ⟨o.complete, hq.handleWritten hs, ?_, ?_, ?_⟩
      · simp [Outbox.all_complete hs, Posts.post]
      · simp [Outbox.length_done_complete hs]
      · simp [(Outbox.waiting_of_sending hs).1, Outbox.complete]
    · rw [if_neg h]
      exact ⟨o, hq, by simp [Posts.post], by simp [Ne.symm h], by simp⟩

/-- A write that fails: the session leaves, and may read on. -/
theorem effect_writeFailed (hr : HeadersRead st p) {s : ι}
    (hwriting : 0 < (st.sessions s).writing) :
    Effect st (st.handleWrite s true) p (.write s true) := by
  change Effect st ((st.update s fun x => { x with writing := x.writing - 1 }).leave s) p _
  have hsessions : ∀ t, ((st.update s fun x => { x with writing := x.writing - 1 }).leave
      s).sessions t =
        if t = s then { st.sessions t with writing := (st.sessions t).writing - 1 }
        else st.sessions t :=
    fun t => st.sessions_update s t fun x => { x with writing := x.writing - 1 }
  refine ⟨fun t => ?_, fun t => ?_, .inl ⟨rfl, rfl⟩, fun t ht _ => ?_, fun t => ?_,
    fun t ht _ => absurd ht (by simp), fun t o _ hq => ?_⟩
  · exact ⟨.inl, fun h => h.resolve_right (by simp)⟩
  · rw [mem_leave]
    simp [ChatState.update, leaves, ne_comm]
  · have h : t ≠ s := Ne.symm ht
    rw [hsessions, if_neg h]
  · rw [hsessions]
    split
    · exact hr t
    · exact hr t
  · rw [hsessions]
    by_cases h : t = s
    · subst t
      have hs : 0 < o.sending := by
        rw [← hq.writing]
        exact hwriting
      rw [if_pos rfl]
      refine ⟨o.fail hs, hq.handleFailed hs, ?_, ?_, ?_⟩
      · simp [Outbox.all, Outbox.fail, Posts.post]
      · simp [Outbox.fail]
      · simp [Outbox.fail]
    · rw [if_neg h]
      exact ⟨o, hq, by simp [Posts.post], by simp, by simp [Ne.symm h]⟩

theorem effect_next (hr : HeadersRead st p) {e : ChatEvent ι} (he : chatMachine.enabled st e) :
    Effect st (chatMachine.next st e) p e := by
  cases e with
  | start s => exact effect_start hr
  | readHeader s transferred error => exact effect_readHeader hr he
  | readBody s transferred error => exact effect_readBody hr he
  | write s error =>
    cases error with
    | false => exact effect_written hr he
    | true => exact effect_writeFailed hr he

end Effect

section Recent

theorem popRecent_eq (msgs : List ChatMessage) : popRecent msgs = msgs.rtake maxRecentMsgs := by
  induction msgs with
  | nil => rfl
  | cons msg rest ih =>
    unfold popRecent List.rtake
    split
    · rename_i h
      have : (msg :: rest).length - maxRecentMsgs = (rest.length - maxRecentMsgs) + 1 := by
        simp only [List.length_cons] at h ⊢
        omega
      rw [ih, this]
      rfl
    · rename_i h
      have : (msg :: rest).length - maxRecentMsgs = 0 := by omega
      rw [this]
      rfl

theorem rtake_rtake_concat {α : Type} (n : Nat) (l : List α) (a : α) :
    (l.rtake n ++ [a]).rtake n = (l ++ [a]).rtake n := by
  cases n with
  | zero => simp
  | succ n =>
    rw [List.rtake_concat_succ, List.rtake_concat_succ, List.rtake_eq_reverse_take_reverse,
      List.rtake_eq_reverse_take_reverse, List.rtake_eq_reverse_take_reverse, List.reverse_reverse,
      List.take_take, Nat.min_eq_left (Nat.le_succ n)]

theorem map_rtake {α β : Type} (f : α → β) (n : Nat) (l : List α) :
    (l.rtake n).map f = (l.map f).rtake n := by
  simp [List.rtake, List.map_drop]

end Recent

section Invariant
variable {ι : Type} [DecidableEq ι] {fills : ι → Fill}

/-- The room and its sessions after the events of `trace`. -/
structure Inv (fills : ι → Fill) (trace : List (ChatEvent ι)) (st : ChatState ι) : Prop where
  started : ∀ s, st.started s = true ↔ .start s ∈ trace
  unstarted : ∀ s, .start s ∉ trace → st.sessions s = Session.new (fills s) ∧
    s ∉ st.room.participants ∧ ∀ error, .write s error ∉ trace
  participants : ∀ s before rest, trace = before ++ .start s :: rest →
    (s ∈ st.room.participants ↔ ∀ e ∈ rest, leaves s e = false)
  recent : st.room.recentMsgs.map ChatMessage.bytes = (posted trace).rtake maxRecentMsgs
  headers : HeadersRead st (posts trace)
  queues : ∀ s before rest, trace = before ++ .start s :: rest →
    ∃ o, QueueOf (st.sessions s) o ∧ o.all = due s before rest ∧
      o.done.length = written s trace ∧ (o.failed = true ↔ .write s true ∈ trace)

theorem inv_init : Inv fills [] (ChatState.init fills) where
  started := fun s => by simp [ChatState.init]
  unstarted := fun s _ => ⟨rfl, by simp [ChatState.init], by simp⟩
  participants := fun s before rest h => by simp at h
  recent := rfl
  headers := fun s h => by cases h
  queues := fun s before rest h => by simp at h

variable {trace : List (ChatEvent ι)} {st : ChatState ι}

theorem eq_start_of_unstarted (h : Inv fills trace st) {e : ChatEvent ι}
    (he : chatMachine.enabled st e) (hs : .start e.actor ∉ trace) : e = .start e.actor := by
  obtain ⟨hnew, -, -⟩ := h.unstarted _ hs
  cases e with
  | start s => rfl
  | readHeader s transferred error =>
    have hreading : (st.sessions s).reader.reading = some .header := he.1
    rw [show st.sessions s = _ from hnew] at hreading
    cases hreading
  | readBody s transferred error =>
    have hreading : (st.sessions s).reader.reading = some .body := he.1
    rw [show st.sessions s = _ from hnew] at hreading
    cases hreading
  | write s error =>
    have hwriting : 0 < (st.sessions s).writing := he
    rw [show st.sessions s = _ from hnew] at hwriting
    cases hwriting

theorem not_mem_of_start (h : Inv fills trace st) {s : ι}
    (he : chatMachine.enabled st (.start s)) : .start s ∉ trace := by
  intro hmem
  have hfalse : st.started s = false := he
  rw [(h.started s).mpr hmem] at hfalse
  cases hfalse

theorem recent_next (h : Inv fills trace st) {st' : ChatState ι} {e : ChatEvent ι}
    (hx : Effect st st' (posts trace) e) :
    st'.room.recentMsgs.map ChatMessage.bytes = (posted (trace ++ [e])).rtake maxRecentMsgs := by
  rw [posted_concat]
  rcases hx.recent with ⟨hnone, hsame⟩ | ⟨msg, hsome, hpush⟩
  · rw [hnone, hsame, h.recent]
    simp
  · rw [hsome, hpush, popRecent_eq, map_rtake, List.map_append, h.recent]
    exact rtake_rtake_concat _ _ _

theorem queue_joins (h : Inv fills trace st) {st' : ChatState ι} {s : ι}
    (hx : Effect st st' (posts trace) (.start s)) (hs : .start s ∉ trace) :
    ∃ o, QueueOf (st'.sessions s) o ∧ o.all = due s trace [] ∧
      o.done.length = written s (trace ++ [.start s]) ∧
      (o.failed = true ↔ .write s true ∈ trace ++ [.start s]) := by
  obtain ⟨hnew, -, hwrites⟩ := h.unstarted s hs
  have hqueue := hx.joins s rfl (hnew ▸ queueOf_new (fills s))
  obtain ⟨hall, hdone, hfailed⟩ := Outbox.foldl_push (o := Outbox.empty)
    (st.room.recentMsgs.map ChatMessage.bytes)
  refine ⟨_, hqueue, ?_, ?_, ?_⟩
  · rw [hall, h.recent, due_nil]
    rfl
  · rw [hdone, written, List.count_append, List.count_eq_zero.mpr (hwrites false)]
    rfl
  · rw [hfailed]
    simp [hwrites true, Outbox.empty]

theorem queue_next (h : Inv fills trace st) {st' : ChatState ι} {e : ChatEvent ι} {s : ι}
    (hx : Effect st st' (posts trace) e) (he : e ≠ .start s) {before rest : List (ChatEvent ι)}
    (hcut : trace = before ++ .start s :: rest) :
    ∃ o, QueueOf (st'.sessions s) o ∧ o.all = due s before (rest ++ [e]) ∧
      o.done.length = written s (trace ++ [e]) ∧
      (o.failed = true ↔ .write s true ∈ trace ++ [e]) := by
  obtain ⟨o, hqueue, hall, hdone, hfailed⟩ := h.queues s before rest hcut
  obtain ⟨o', hqueue', hall', hdone', hfailed'⟩ := hx.queue s o he hqueue
  refine ⟨o', hqueue', ?_, ?_, ?_⟩
  · have hmember := h.participants s before rest hcut
    by_cases hleft : ∀ x ∈ rest, leaves s x = false
    · rw [hall', if_pos (hmember.mpr hleft), due_concat_of_member hleft, hall, hcut]
    · rw [hall', if_neg (fun hmem => hleft (hmember.mp hmem)), due_concat_of_left hleft, hall,
        List.append_nil]
  · rw [hdone', hdone]
    simp only [written, List.count_append, List.count_singleton, beq_iff_eq]
  · rw [hfailed', hfailed, List.mem_append, List.mem_singleton, eq_comm (a := e)]

theorem inv_next (h : Inv fills trace st) {e : ChatEvent ι} (he : chatMachine.enabled st e) :
    Inv fills (trace ++ [e]) (chatMachine.next st e) := by
  have hx := effect_next h.headers he
  refine ⟨fun s => ?_, fun s hs => ?_, fun s before rest hcut => ?_, recent_next h hx, ?_,
    fun s before rest hcut => ?_⟩
  · rw [hx.started, h.started, List.mem_append, List.mem_singleton, eq_comm (a := e)]
  · obtain ⟨hs, hse⟩ := not_or.mp (fun hm => hs (List.mem_append.mpr hm))
    have hse : e ≠ .start s := fun h => hse (List.mem_singleton.mpr h.symm)
    obtain ⟨hnew, hmem, hwrites⟩ := h.unstarted s hs
    have hactor : e.actor ≠ s := by
      rintro rfl
      exact hse (eq_start_of_unstarted h he hs)
    refine ⟨(hx.untouched s hactor hmem).trans hnew, fun hm => ?_, fun error hm => ?_⟩
    · rcases ((hx.participants s).mp hm).1 with hm | hm
      · exact hmem hm
      · exact hse hm
    · rcases List.mem_append.mp hm with hm | hm
      · exact hwrites error hm
      · exact hactor (by rw [← List.mem_singleton.mp hm]; rfl)
  · rcases concat_eq_append_cons hcut with ⟨rfl, -, rfl⟩ | ⟨rest, rfl, rfl⟩
    · rw [hx.participants]
      simp [leaves]
    · have hse : e ≠ .start s := by
        rintro rfl
        exact not_mem_of_start h he (by simp)
      rw [hx.participants, or_iff_left hse, h.participants s before rest rfl]
      simp [or_imp, forall_and]
  · rw [posts_concat]
    exact hx.header
  · rcases concat_eq_append_cons hcut with ⟨rfl, rfl, rfl⟩ | ⟨rest, rfl, hcut'⟩
    · exact queue_joins h hx (not_mem_of_start h he)
    · refine queue_next h hx ?_ hcut'
      rintro rfl
      exact not_mem_of_start h he (by simp [hcut'])

/-- In every run of a room: what a session has been handed to write is the beginning of what
it is due, at most one of its writes is outstanding, exactly one as long as not everything
has been written and no write has failed, and the room keeps the messages posted last. -/
theorem delivery_ordered (h : chatMachine.Run (ChatState.init fills) trace st) :
    st.room.recentMsgs.map ChatMessage.bytes = (posted trace).rtake maxRecentMsgs ∧
    ∀ s,
      (.start s ∉ trace → (st.sessions s).handed = [] ∧ (st.sessions s).writing = 0) ∧
      ∀ before rest, trace = before ++ .start s :: rest →
        (st.sessions s).handed <+: due s before rest ∧ (st.sessions s).writing ≤ 1 ∧
        (.write s true ∉ trace → written s trace < (due s before rest).length →
          (st.sessions s).writing = 1) := by
  have hinv : Inv fills trace st := h.invariant inv_init fun _ _ _ hi he => inv_next hi he
  refine ⟨hinv.recent, fun s => ⟨fun hs => ?_, fun before rest hcut => ?_⟩⟩
  · rw [(hinv.unstarted s hs).1]
    exact ⟨rfl, rfl⟩
  · obtain ⟨o, hqueue, hall, hdone, hfailed⟩ := hinv.queues s before rest hcut
    rw [hqueue.handed, hqueue.writing, ← hall, ← hdone]
    refine ⟨Outbox.begun_isPrefix_all, Outbox.sending_le_one, fun hno hlt => ?_⟩
    have : o.failed = false := by
      cases hf : o.failed with
      | false => rfl
      | true => exact absurd (hfailed.mp hf) hno
    exact (Outbox.sending_eq_one_iff this).mpr hlt

/-- Session 1 joins between the two messages of session 0 and is due both. -/
theorem delivery_ordered_two_sessions :
    let before : List (ChatEvent Nat) := [.start 0, .readHeader 0 (str "   2") false,
      .readBody 0 (str "hi") false]
    let rest : List (ChatEvent Nat) := [.readHeader 0 (str "   1") false, .write 1 false,
      .readBody 0 (str "!") false]
    ∃ st, chatMachine.Run (ChatState.init fun _ => ⟨List.replicate 516 0, List.length_replicate⟩)
        (before ++ .start 1 :: rest) st ∧
      (st.sessions 1).handed <+: due 1 before rest ∧ (st.sessions 1).writing = 1 ∧
      due 1 before rest = [str "   2hi", str "   1!"] := by
  intro before rest
  have hadmits : chatMachine.Admits
      (ChatState.init fun _ => ⟨List.replicate 516 0, List.length_replicate⟩)
      (before ++ .start 1 :: rest) := by decide +kernel
  have hrun := hadmits.run
  obtain ⟨-, hsessions⟩ := delivery_ordered hrun
  obtain ⟨hhanded, -, hwriting⟩ := (hsessions 1).2 before rest rfl
  have hdue : due 1 before rest = [str "   2hi", str "   1!"] := by decide +kernel
  refine ⟨_, hrun, hhanded, hwriting (by decide +kernel) ?_, hdue⟩
  rw [hdue]
  decide +kernel

end Invariant

end AsioExamples.Chat
