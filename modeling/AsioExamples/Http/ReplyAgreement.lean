import AsioExamples.Http.Client
import AsioExamples.Http.ReplyFraming
import Mathlib.Data.List.TakeWhile

/-!
# Replies at the clients

Whichever way a reply is cut, each stage of a client takes its own part of what has come: the
status line, the headers with the blank line, the content.
-/

namespace AsioExamples.Http

set_option autoImplicit false

open Decimal Lines

section Extraction

theorem span_of_stop {p : UInt8 → Bool} {w : Bytes} {c : UInt8} (rest : Bytes)
    (hw : ∀ a ∈ w, p a = true) (hc : p c = false) :
    (w ++ c :: rest).takeWhile p = w ∧ (w ++ c :: rest).dropWhile p = c :: rest := by
  have hc : ¬ p c = true := by simp [hc]
  constructor
  · rw [List.takeWhile_append_of_pos hw, List.takeWhile_cons_of_neg hc, List.append_nil]
  · rw [List.dropWhile_append_of_pos hw, List.dropWhile_cons_of_neg hc]

theorem word_fresh {w rest : Bytes} {c : UInt8} (hne : w ≠ []) (hw : ∀ a ∈ w, isSpace a = false)
    (hc : isSpace c = true) :
    (IStream.fresh (w ++ c :: rest)).word = (w, IStream.fresh (c :: rest)) := by
  obtain ⟨a, w, rfl⟩ := List.exists_cons_of_ne_nil hne
  have hskip : (a :: w ++ c :: rest).dropWhile isSpace = a :: w ++ c :: rest :=
    List.dropWhile_cons_of_neg (by simp [hw a List.mem_cons_self])
  obtain ⟨htake, hdrop⟩ := span_of_stop (p := fun c => !isSpace c) (w := a :: w)
    (c := c) rest (fun b hb => by simp [hw b hb]) (by simp [hc])
  simp only [IStream.word, IStream.fresh, IStream.good, Bool.not_false, Bool.and_self, if_true,
    hskip, htake, hdrop]
  rfl

theorem number_fresh {n : Nat} {rest : Bytes} {c : UInt8} (hn : n ≤ 4294967295)
    (hc : isDecimalDigit c = false) :
    (IStream.fresh (chr ' ' :: (decimal n ++ c :: rest))).number =
      (n, IStream.fresh (c :: rest)) := by
  obtain ⟨d, ds, he, hd, hdigit⟩ := decimal_cons n
  obtain ⟨hspace, hminus, hplus, -⟩ := digit_facts hd
  obtain ⟨htake, hdrop⟩ := span_of_stop rest hdigit hc
  have hskip : (chr ' ' :: (decimal n ++ c :: rest)).dropWhile isSpace =
      decimal n ++ c :: rest := by
    rw [List.dropWhile_cons_of_pos (by decide), he]
    exact List.dropWhile_cons_of_neg (by simp [hspace])
  unfold IStream.number
  simp only [IStream.fresh, IStream.good, Bool.not_false, Bool.and_self, if_true, hskip]
  rw [he, List.cons_append] at htake hdrop ⊢
  simp only [hminus, hplus, if_false]
  rw [htake, hdrop, ← he, valueOf_decimal, if_neg (decimal_ne_nil n),
    if_neg (Nat.not_lt.mpr hn)]
  rfl

theorem line_fresh {l : Bytes} (rest : Bytes) (hl : chr '\n' ∉ l) :
    (IStream.fresh (l ++ chr '\n' :: rest)).line = (l, IStream.fresh rest) := by
  obtain ⟨htake, hdrop⟩ := span_of_stop (p := fun c => c != chr '\n') (w := l)
    (c := chr '\n') rest (fun b hb => by
      have : b ≠ chr '\n' := fun h => hl (h ▸ hb)
      simpa using this) (by simp)
  simp only [IStream.line, IStream.fresh, IStream.good, Bool.not_false, Bool.and_self, if_true,
    htake, hdrop]

end Extraction

section Stages

theorem readStatusLine_fresh {s : StatusType} (hs : s.Named) (rest : Bytes) :
    readStatusLine (.fresh (StatusStrings.toBuffer s ++ rest)) =
      (some s.code, .fresh rest) := by
  obtain ⟨hcode, phrase, -, hlf, he⟩ := toBuffer_eq hs
  have hbuf : StatusStrings.toBuffer s ++ rest = str "HTTP/1.0" ++ chr ' ' ::
      (decimal s.code ++ chr ' ' :: ((phrase ++ [chr '\r']) ++ chr '\n' :: rest)) := by
    rw [he]
    simp [crlf]
  have hline : chr '\n' ∉ chr ' ' :: (phrase ++ [chr '\r']) := by
    simp [hlf, show chr '\n' ≠ chr ' ' by decide, show chr '\n' ≠ chr '\r' by decide]
  have hword : (str "HTTP/1.0").any isSpace = false := by decide
  rw [List.any_eq_false] at hword
  unfold readStatusLine
  rw [hbuf, word_fresh (by decide) (by simpa using hword) (by decide)]
  simp only
  rw [number_fresh hcode (by decide)]
  simp only
  rw [← List.cons_append, line_fresh rest hline]
  rfl

theorem printHeaders_blank {s s' : IStream} (h : s.line = (str "\r", s')) (out : OStream) :
    printHeaders s out = (s', out) := by
  rw [printHeaders, dif_neg (by rw [h]; exact fun hn => hn.2 rfl), h]

theorem printHeaders_header {s s' : IStream} {header : Bytes} (h : s.line = (header, s'))
    (hok : s'.fail = false) (hne : header ≠ str "\r") (out : OStream) :
    printHeaders s out = printHeaders s' (out.put (header ++ str "\n")) := by
  rw [printHeaders, dif_pos (by rw [h]; exact ⟨hok, hne⟩), h]

/-- Lines that end in a carriage return and a newline are printed with both, up to the blank
one. -/
theorem printHeaders_block {ls : List Bytes} (hls : ∀ l ∈ ls, OneLine l) (rest text : Bytes) :
    printHeaders (.fresh (block (chr '\r') (chr '\n') ls ++ rest)) ⟨text, false⟩ =
      (.fresh rest, ⟨text ++ ls.flatMap (fun l => l ++ crlf), false⟩) := by
  induction ls generalizing text with
  | nil =>
    have hline := line_fresh (l := [chr '\r']) rest (by decide)
    rw [List.flatMap_nil, List.append_nil]
    exact printHeaders_blank hline _
  | cons l ls ih =>
    obtain ⟨⟨hne, -, hlf⟩, hls⟩ := List.forall_mem_cons.mp hls
    have hlf' : chr '\n' ∉ l ++ [chr '\r'] := by
      simp [hlf, show chr '\n' ≠ chr '\r' by decide]
    have hline := line_fresh (block (chr '\r') (chr '\n') ls ++ rest) hlf'
    have hbuf : block (chr '\r') (chr '\n') (l :: ls) ++ rest =
        (l ++ [chr '\r']) ++ chr '\n' :: (block (chr '\r') (chr '\n') ls ++ rest) := by
      simp [block]
    have hheader : l ++ [chr '\r'] ≠ str "\r" := by
      intro he
      have := congrArg List.length he
      exact hne (List.eq_nil_of_length_eq_zero (by simpa [str] using this))
    rw [hbuf, printHeaders_header hline rfl hheader]
    change printHeaders _ ⟨text ++ (l ++ [chr '\r'] ++ str "\n"), false⟩ = _
    rw [ih hls]
    simp [crlf, str]

theorem putRest_ok (text buf : Bytes) : putRest ⟨text, false⟩ buf = ⟨text ++ buf, false⟩ := by
  unfold putRest OStream.putBuffer
  cases buf with
  | nil => simp
  | cons c buf => simp

theorem AsyncClient.readContent_eq {pieces : List Bytes} (hne : ∀ p ∈ pieces, p ≠ [])
    (text : Bytes) :
    (AsyncClient.readContent ⟨[], text, false⟩ pieces).out = ⟨text ++ pieces.flatten, false⟩ := by
  induction pieces generalizing text with
  | nil => simp [AsyncClient.readContent]
  | cons p pieces ih =>
    obtain ⟨hp, hne⟩ := List.forall_mem_cons.mp hne
    have hstep : AsyncClient.handleReadContent ⟨[] ++ p, text, false⟩ = ⟨[], text ++ p, false⟩ := by
      simp [AsyncClient.handleReadContent, OStream.putBuffer, hp]
    rw [AsyncClient.readContent]
    change (AsyncClient.readContent
      (AsyncClient.handleReadContent ⟨[] ++ p, text, false⟩) _).out = _
    rw [hstep, ih hne, List.flatten_cons, List.append_assoc]

theorem SyncClient.readContent_eq {pieces : List Bytes} (hne : ∀ p ∈ pieces, p ≠ [])
    (text : Bytes) :
    SyncClient.readContent [] ⟨text, false⟩ pieces = ⟨text ++ pieces.flatten, false⟩ := by
  induction pieces generalizing text with
  | nil => simp [SyncClient.readContent]
  | cons p pieces ih =>
    obtain ⟨hp, hne⟩ := List.forall_mem_cons.mp hne
    have hstep : OStream.putBuffer ⟨text, false⟩ ([] ++ p) = ⟨text ++ p, false⟩ := by
      simp [OStream.putBuffer, hp]
    simp only [SyncClient.readContent, hstep, Bool.false_eq_true, if_false]
    rw [ih hne, List.flatten_cons, List.append_assoc]

end Stages

/-- What a client is to print for a reply: the header lines as they came, an empty line and the
content, or the status that is not 200. -/
def Reply.printed (rep : Reply) : Bytes :=
  if rep.status = .ok then
    rep.headers.flatMap (fun h => h.name ++ MiscStrings.nameValueSeparator ++ h.value ++ crlf) ++
      str "\n" ++ rep.content
  else str "Response returned with status code " ++ decimal rep.status.code ++ str "\n"

section Clients
variable {rep : Reply} {pieces : List Bytes}

theorem code_eq_iff {s : StatusType} (hs : s.Named) : s.code = 200 ↔ s = .ok := by
  cases s with
  | other value => exact absurd rfl (hs value)
  | _ => decide

/-- The first read of the response, and what the status line is found to be. -/
theorem readUntil_statusLine (hs : rep.status.Named) {tail : Bytes}
    (hbytes : pieces.flatten = StatusStrings.toBuffer rep.status ++ tail) :
    ∃ more pieces', readUntil crlf [] pieces =
        some (StatusStrings.toBuffer rep.status ++ more, pieces') ∧
      more ++ pieces'.flatten = tail ∧ pieces' <:+ pieces := by
  obtain ⟨-, phrase, hcr, -, he⟩ := toBuffer_eq hs
  have hcrlf : crlf <:+: [] ++ pieces.flatten := by
    rw [List.nil_append, hbytes, he]
    exact ⟨_, tail, rfl⟩
  obtain ⟨buf, pieces', hread, hstream, hinfix, hsuffix⟩ := exists_readUntil hcrlf
  rw [List.nil_append, hbytes, he] at hstream
  have hline : chr '\r' ∉ str "HTTP/1.0" ++ chr ' ' ::
      (decimal rep.status.code ++ chr ' ' :: phrase) := by
    have hdigits := (oneLine_decimal rep.status.code).2.1
    simp [hcr, hdigits, show chr '\r' ∉ str "HTTP/1.0" by decide,
      show chr '\r' ≠ chr ' ' by decide]
  obtain ⟨more, rfl, hmore⟩ := line_of_infix hline hinfix hstream
  rw [he]
  exact ⟨more, pieces', hread, hmore, hsuffix⟩

theorem readUntil_headers {ls : List Bytes} (hne : ls ≠ []) (hls : ∀ l ∈ ls, OneLine l)
    {more content : Bytes}
    (hbytes : more ++ pieces.flatten = block (chr '\r') (chr '\n') ls ++ content) :
    ∃ extra pieces', readUntil (crlf ++ crlf) more pieces =
        some (block (chr '\r') (chr '\n') ls ++ extra, pieces') ∧
      extra ++ pieces'.flatten = content ∧ pieces' <:+ pieces := by
  have hblank : crlf ++ crlf <:+: more ++ pieces.flatten := by
    rw [hbytes]
    exact (doubleEnd_isInfix_block hne).trans (List.infix_append' [] _ content)
  obtain ⟨buf, pieces', hread, hstream, hinfix, hsuffix⟩ := exists_readUntil hblank
  rw [hbytes] at hstream
  have hcr : ∀ l ∈ ls, l ≠ [] ∧ chr '\r' ∉ l := fun l hl => ⟨(hls l hl).1, (hls l hl).2.1⟩
  obtain ⟨extra, rfl, hextra⟩ := block_of_infix (by decide) hcr hinfix hstream
  exact ⟨extra, pieces', hread, hextra, hsuffix⟩

/-- Given what each stage makes of what has come, a client prints the headers, an empty line and
all that is left. -/
theorem AsyncClient.run_ok {eof first more second extra text : Bytes} {pieces₁ pieces₂ : List Bytes}
    (hread₁ : readUntil crlf [] pieces = some (first, pieces₁))
    (hstatus : readStatusLine (.fresh first) = (some 200, .fresh more))
    (hread₂ : readUntil (crlf ++ crlf) more pieces₁ = some (second, pieces₂))
    (hprint : printHeaders (.fresh second) OStream.empty = (.fresh extra, ⟨text, false⟩))
    (hne : ∀ p ∈ pieces₂, p ≠ []) :
    (AsyncClient.run eof pieces).out =
      ⟨text ++ str "\n" ++ extra ++ pieces₂.flatten, false⟩ := by
  have hline : handleReadStatusLine ⟨first, OStream.empty⟩ = (⟨more, OStream.empty⟩, true) := by
    unfold handleReadStatusLine
    rw [hstatus]
    rfl
  have hheaders : handleReadHeaders ⟨second, OStream.empty⟩ =
      ⟨[], text ++ str "\n" ++ extra, false⟩ := by
    unfold handleReadHeaders
    rw [hprint]
    exact congrArg (AsyncClient.mk []) (putRest_ok _ extra)
  unfold AsyncClient.run
  simp only [hread₁, hline]
  unfold AsyncClient.readHeaders
  simp only [hread₂, hheaders]
  exact AsyncClient.readContent_eq hne _

theorem SyncClient.run_ok {eof first more second extra text : Bytes} {pieces₁ pieces₂ : List Bytes}
    (hread₁ : readUntil crlf [] pieces = some (first, pieces₁))
    (hstatus : readStatusLine (.fresh first) = (some 200, .fresh more))
    (hread₂ : readUntil (crlf ++ crlf) more pieces₁ = some (second, pieces₂))
    (hprint : printHeaders (.fresh second) OStream.empty = (.fresh extra, ⟨text, false⟩))
    (hne : ∀ p ∈ pieces₂, p ≠ []) :
    SyncClient.run eof pieces = ⟨text ++ str "\n" ++ extra ++ pieces₂.flatten, false⟩ := by
  have hstream : { IStream.fresh more with buf := second } = IStream.fresh second := rfl
  have hcode : ¬ (200 : Nat) ≠ 200 := fun h => h rfl
  have hput : OStream.put ⟨text, false⟩ (str "\n") = ⟨text ++ str "\n", false⟩ := rfl
  unfold SyncClient.run
  simp only [hread₁, hstatus, if_neg hcode, show (IStream.fresh more).buf = more from rfl, hread₂,
    hstream, hprint, hput]
  change SyncClient.readContent [] (putRest ⟨text ++ str "\n", false⟩ extra) pieces₂ = _
  rw [putRest_ok]
  exact SyncClient.readContent_eq hne _

theorem run_printed (eof : Bytes) (hs : rep.status.Named) {contentType : Bytes}
    (hh : rep.headers = contentHeaders rep.content contentType) (ht : OneLine contentType)
    (hne : ∀ p ∈ pieces, p ≠ []) (hbytes : pieces.flatten = rep.toBuffers.flatten) :
    (AsyncClient.run eof pieces).out = ⟨rep.printed, false⟩ ∧
      SyncClient.run eof pieces = ⟨rep.printed, false⟩ := by
  rw [toBuffers_of_contentHeaders hh] at hbytes
  obtain ⟨more, pieces₁, hread₁, hmore, hsuffix₁⟩ := readUntil_statusLine hs hbytes
  have hstatus := readStatusLine_fresh hs more
  by_cases hok : rep.status = .ok
  · have hcode : rep.status.code = 200 := (code_eq_iff hs).mpr hok
    obtain ⟨hl, hr⟩ := oneLine_contentHeaders rep.content ht
    have hls : ∀ l ∈ [str "Content-Length: " ++ decimal rep.content.length,
        str "Content-Type: " ++ contentType], OneLine l := by
      simpa using ⟨hl, hr⟩
    obtain ⟨extra, pieces₂, hread₂, hextra, hsuffix₂⟩ := readUntil_headers (by simp) hls hmore
    have hprint := printHeaders_block hls extra []
    have hne₂ : ∀ p ∈ pieces₂, p ≠ [] :=
      fun p hp => hne p (hsuffix₁.subset (hsuffix₂.subset hp))
    have hprinted : [str "Content-Length: " ++ decimal rep.content.length,
        str "Content-Type: " ++ contentType].flatMap (fun l => l ++ crlf) ++ str "\n" ++
          extra ++ pieces₂.flatten = rep.printed := by
      unfold Reply.printed
      rw [if_pos hok, hh, List.append_assoc _ extra, hextra]
      simp [contentHeaders, MiscStrings.nameValueSeparator, str, chr]
    rw [hcode] at hstatus
    rw [List.nil_append] at hprint
    rw [← hprinted]
    constructor
    · exact AsyncClient.run_ok hread₁ hstatus hread₂ hprint hne₂
    · exact SyncClient.run_ok hread₁ hstatus hread₂ hprint hne₂
  · have hcode : rep.status.code ≠ 200 := fun h => hok ((code_eq_iff hs).mp h)
    have hprinted : OStream.empty.put (str "Response returned with status code " ++
        decimal rep.status.code ++ str "\n") = ⟨rep.printed, false⟩ := by
      unfold Reply.printed
      rw [if_neg hok]
      rfl
    constructor
    · simp only [AsyncClient.run, hread₁, AsyncClient.handleReadStatusLine, hstatus, hcode, ne_eq,
        not_false_eq_true, if_true]
      exact hprinted
    · simp only [SyncClient.run, hread₁, hstatus, hcode, ne_eq, not_false_eq_true, if_true]
      exact hprinted

end Clients

/-- Every reply that the handler of the first server makes is printed by both clients as it is
to be, however its bytes are cut into pieces. -/
theorem replies_printed (eof docRoot : Bytes) (files : Bytes → Option Bytes) (req : Request)
    (rep : Reply) {pieces : List Bytes} (hne : ∀ p ∈ pieces, p ≠ [])
    (hpieces : pieces.flatten =
      (Server.RequestHandler.handleRequest docRoot files req rep).rep.toBuffers.flatten) :
    (AsyncClient.run eof pieces).out =
        ⟨(Server.RequestHandler.handleRequest docRoot files req rep).rep.printed, false⟩ ∧
      SyncClient.run eof pieces =
        ⟨(Server.RequestHandler.handleRequest docRoot files req rep).rep.printed, false⟩ := by
  obtain ⟨contentType, hs, hh, ht⟩ := handle_contentHeaders docRoot files req.uri rep
  exact run_printed eof hs hh ht hne hpieces

/-- A page that starts like a blank line and is cut after that, all before it in one piece. -/
theorem replies_printed_blank :
    let files : Bytes → Option Bytes := fun path =>
      if path = str "/www/a.txt" then some (str "\r\n\r\n!") else none
    let rep := (Server.RequestHandler.handleRequest (str "/www") files
      { Request.fresh with uri := str "/a.txt" } (Reply.fresh 0)).rep
    let printed := str "Content-Length: 5\r\nContent-Type: text/plain\r\n\n\r\n\r\n!"
    rep.status = .ok ∧
      (AsyncClient.run [] [rep.toBuffers.flatten.take 66, rep.toBuffers.flatten.drop 66]).out =
        ⟨printed, false⟩ ∧
      SyncClient.run [] [rep.toBuffers.flatten.take 66, rep.toBuffers.flatten.drop 66] =
        ⟨printed, false⟩ := by
  intro files rep printed
  have hprinted : rep.printed = printed := by decide +kernel
  have hne : ∀ p ∈ [rep.toBuffers.flatten.take 66, rep.toBuffers.flatten.drop 66], p ≠ [] := by
    decide +kernel
  have h := replies_printed [] (str "/www") files { Request.fresh with uri := str "/a.txt" }
    (Reply.fresh 0) hne (by simp [rep])
  rw [← hprinted]
  exact ⟨by decide +kernel, h⟩

end AsioExamples.Http
